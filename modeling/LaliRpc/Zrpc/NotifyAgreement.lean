/-
# Zrpc.NotifyAgreement — whether a generated client and server agree on a notification

The method that a client gets for a notification has a template of its own, in
which the name of the notification is spelled out and the parameters are built
but not sent. The server registers the notification under the names of the
description. So the two agree on one notification only, `Hello.Goodbye` without
parameters (`notify_agrees_iff`).
-/
import LaliRpc.Zrpc.ClientStub
import LaliRpc.Zrpc.ServiceStub

namespace LaliRpc.Zrpc

open LaliRpc.Jackson LaliRpc.Theory

set_option autoImplicit false

/-- The generated method takes the argument for the parameter. -/
def ClientStub.Takes (p : Bytes × Value) (arg : CppValue) : Prop :=
  ∃ a, ClientStub.argTemplate p.1 p.2.getType = .ok a ∧ a.argType = arg.type

/-- What a notification that names all its arguments has as `"params"`. -/
def namedParams (declared : List (Bytes × Value)) (args : List CppValue) : Option Value :=
  if declared = [] then none
  else some (.object ((declared.zip args).map fun b => (b.1.1, b.2.toValue)))

/-- The client's method for the entry at `i`, called with the arguments, builds a
notification for the name that the server registers the entry under, and with the
arguments as its parameters. -/
def NotifyAgrees (client : ClientStub.Code) (code : ServiceStubGenerator.Code) (i : Nat)
    (r : RpcNotify) (declared : List (Bytes × Value)) (args : List CppValue) : Prop :=
  ∃ method b notify, client.notifyDefinitions[i]? = some method ∧
    code.notifyBindings[i]? = some b ∧ b.name = r.name ∧
    method.call args = .ok (.object notify) ∧
    notify.lookup (ascii "method") = some (.string (code.serviceName ++ chr '.' :: b.name)) ∧
    notify.lookup (ascii "params") = namedParams declared args

/-- The one name that the template has. -/
def IsHelloGoodbye (serviceName notifyName : Bytes) : Prop :=
  serviceName ++ chr '.' :: notifyName = ascii "Hello.Goodbye"

instance (serviceName notifyName : Bytes) : Decidable (IsHelloGoodbye serviceName notifyName) :=
  inferInstanceAs (Decidable (_ = _))

section Agreement

variable {proto : Value} {info : ServiceInfo} {client : ClientStub.Code}
  {code : ServiceStubGenerator.Code}

/-- The parts that both files have for one notification. -/
theorem notify_parts (methods : ClientStub.getStub info = .ok client)
    (server : ServiceStubGenerator.getStub info = .ok code) {i : Nat} {r : RpcNotify}
    (entry : info.rpcNotify[i]? = some r) :
    ∃ method b, client.notifyDefinitions[i]? = some method ∧
      ClientStub.notifyDefine r = .ok method ∧ code.notifyBindings[i]? = some b ∧
      b.name = r.name ∧ code.serviceName = info.name := by
  have generated := ServiceStubGenerator.getStub_ok server
  obtain ⟨procedures, -, methods⟩ := except_bind_eq_ok.mp methods
  obtain ⟨notifies, made, methods⟩ := except_bind_eq_ok.mp methods
  obtain rfl := Except.ok.inj methods
  obtain ⟨method, listed, defined⟩ := mapM_ok_getElem? made entry
  obtain ⟨b, bound, registered⟩ := mapM_ok_getElem? generated.notifyBindings entry
  exact ⟨method, b, listed, defined, bound, (ServiceStubGenerator.binding_ok registered).1,
    generated.serviceName⟩

/-- What the two files have for one notification is an agreement exactly for the
one name and no parameters. -/
theorem notify_agrees_bound (methods : ClientStub.getStub info = .ok client)
    (server : ServiceStubGenerator.getStub info = .ok code) {i : Nat} {r : RpcNotify}
    (entry : info.rpcNotify[i]? = some r) {bound : List ((Bytes × Value) × CppValue)}
    (declares : Declares r.params (bound.map Prod.fst)) :
    NotifyAgrees client code i r (bound.map Prod.fst) (bound.map Prod.snd) ↔
      IsHelloGoodbye info.name r.name ∧ bound.map Prod.fst = [] := by
  obtain ⟨method, b, listed, defined, registered, name, service⟩ :=
    notify_parts methods server entry
  have built := ClientStub.notify_eq declares defined
  have noParams : [(ascii "jsonrpc", Value.string (ascii "2.0")),
      (ascii "method", .string (ascii "Hello.Goodbye"))].lookup (ascii "params") = none :=
    lookup_eq_none_iff.mpr (show _ ∉ [ascii "jsonrpc", ascii "method"] by decide)
  have hasMethod : [(ascii "jsonrpc", Value.string (ascii "2.0")),
      (ascii "method", .string (ascii "Hello.Goodbye"))].lookup (ascii "method") =
        some (.string (ascii "Hello.Goodbye")) :=
    lookup_of_mem (show [ascii "jsonrpc", ascii "method"].Nodup by decide) (by simp)
  constructor
  · rintro ⟨method', b', notify, listed', registered', -, called, named, params⟩
    obtain rfl := Option.some.inj (listed.symm.trans listed')
    obtain rfl := Option.some.inj (registered.symm.trans registered')
    obtain rfl := Value.object.inj (Except.ok.inj (built.symm.trans called))
    rw [hasMethod, service, name, Option.some.injEq, Value.string.injEq] at named
    refine ⟨named.symm, ?_⟩
    by_contra some
    rw [noParams, namedParams, if_neg some] at params
    cases params
  · rintro ⟨spelled, none⟩
    refine ⟨method, b, _, listed, registered, name, built, ?_, ?_⟩
    · rw [hasMethod, service, name, show info.name ++ chr '.' :: r.name = _ from spelled]
    · rw [noParams, namedParams, if_pos none]

/-- **A generated client and a generated server agree on a notification** exactly
when it is `Hello.Goodbye`, and has no parameters. -/
theorem notify_agrees_iff (accepted : StubGenerator.parseProto proto = .ok info)
    (methods : ClientStub.getStub info = .ok client)
    (server : ServiceStubGenerator.getStub info = .ok code) {i : Nat} {r : RpcNotify}
    (entry : info.rpcNotify[i]? = some r) {declared : List (Bytes × Value)}
    (shape : r.params = .object declared) {args : List CppValue}
    (typed : List.Forall₂ ClientStub.Takes declared args) :
    NotifyAgrees client code i r declared args ↔
      IsHelloGoodbye info.name r.name ∧ declared = [] := by
  have count := typed.length_eq
  obtain ⟨bound, rfl, rfl⟩ : ∃ bound : List ((Bytes × Value) × CppValue),
      bound.map Prod.fst = declared ∧ bound.map Prod.snd = args :=
    ⟨declared.zip args, List.map_fst_zip count.le, List.map_snd_zip count.ge⟩
  obtain ⟨members, object, distinct⟩ :=
    (StubGenerator.described_parseProto accepted).rpcNotify r (List.mem_of_getElem? entry)
  obtain rfl := Value.object.inj (shape.symm.trans object)
  exact notify_agrees_bound methods server entry ⟨shape, distinct⟩

end Agreement

/-! ### Two services -/

/-- A service with one notification. -/
def notifyProto (serviceName notifyName : Bytes) (declared : List (Bytes × Value)) : Value :=
  .object [(ascii "name", .string serviceName), (ascii "rpc", .array [
    .object [(ascii "name", .string notifyName), (ascii "params", .object declared)]])]

/-- What is read from it. -/
def notifyInfo (serviceName notifyName : Bytes) (declared : List (Bytes × Value)) : ServiceInfo :=
  ⟨serviceName, [], [⟨notifyName, .object declared⟩]⟩

/-- The notification that the template is spelled for. -/
theorem hello_goodbye_agrees :
    ∃ client code,
      ClientStub.getStub (notifyInfo (ascii "Hello") (ascii "Goodbye") []) = .ok client ∧
      ServiceStubGenerator.getStub (notifyInfo (ascii "Hello") (ascii "Goodbye") []) = .ok code ∧
      NotifyAgrees client code 0 ⟨ascii "Goodbye", .object []⟩ [] [] := by
  have accepted : StubGenerator.parseProto (notifyProto (ascii "Hello") (ascii "Goodbye") []) =
      .ok (notifyInfo (ascii "Hello") (ascii "Goodbye") []) := rfl
  obtain ⟨client, methods⟩ : ∃ client,
      ClientStub.getStub (notifyInfo (ascii "Hello") (ascii "Goodbye") []) = .ok client := ⟨_, rfl⟩
  obtain ⟨code, server⟩ : ∃ code,
      ServiceStubGenerator.getStub (notifyInfo (ascii "Hello") (ascii "Goodbye") []) = .ok code :=
    ⟨_, rfl⟩
  refine ⟨client, code, methods, server, ?_⟩
  exact (notify_agrees_iff accepted methods server rfl rfl .nil).mpr ⟨by decide, rfl⟩

/-- `S.f` is sent as `Hello.Goodbye`, and without its parameter. -/
theorem spelled_out_disagrees :
    let info := notifyInfo (ascii "S") (ascii "f") [(ascii "x", .int32 0)]
    let f : RpcNotify := ⟨ascii "f", .object [(ascii "x", .int32 0)]⟩
    StubGenerator.parseProto (notifyProto (ascii "S") (ascii "f") [(ascii "x", .int32 0)]) =
        .ok info ∧ info.rpcNotify[0]? = some f ∧
      ∃ client code, ClientStub.getStub info = .ok client ∧
        ServiceStubGenerator.getStub info = .ok code ∧
        ¬ NotifyAgrees client code 0 f [(ascii "x", .int32 0)] [.int32 1] := by
  intro info f
  have entry : info.rpcNotify[0]? = some f := rfl
  obtain ⟨client, methods⟩ : ∃ client, ClientStub.getStub info = .ok client := ⟨_, rfl⟩
  obtain ⟨code, server⟩ : ∃ code, ServiceStubGenerator.getStub info = .ok code := ⟨_, rfl⟩
  refine ⟨rfl, entry, client, code, methods, server, ?_⟩
  intro agrees
  have declares : Declares f.params
      ([((ascii "x", Value.int32 0), CppValue.int32 1)].map Prod.fst) :=
    ⟨rfl, List.nodup_singleton _⟩
  have spelled := ((notify_agrees_bound methods server entry declares).mp agrees).1
  revert spelled
  decide

end LaliRpc.Zrpc
