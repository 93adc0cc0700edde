/-
# Zrpc.ClientStub — the generated client

`ClientStub.cpp`. A template is filled with lists of small texts, and what it
then is, is C++: here it is the statements of that code, `ProcedureDefine` for
the methods, with `call` running one. The class around them only connects. The
methods of notifications have a template of their own (`NotifyDefine`).

A method builds its request in three steps: the members of `params`, the three
members of the call, and the id. `call_eq` is the request it sends.
-/
import LaliRpc.Jackson.Number
import LaliRpc.Zrpc.RpcClient
import LaliRpc.Zrpc.StubGenerator

namespace LaliRpc.Zrpc.ClientStub

open LaliRpc.Jackson LaliRpc.Theory

set_option autoImplicit false

/-- `[argType] [argName]` -/
structure Arg where
  argType : CppType
  argName : Bytes

def argTemplate (argName : Bytes) (argType : ValueType) : Except Thrown Arg :=
  match argType with
  | .int32 => .ok ⟨.int32, argName⟩
  | .int64 => .ok ⟨.int64, argName⟩
  | .double => .ok ⟨.double, argName⟩
  | .bool => .ok ⟨.bool, argName⟩
  | .string => .ok ⟨.string, argName⟩
  | .object | .array => .ok ⟨.json, argName⟩
  | .null => .error .assertion

/-- A method that makes a call. -/
structure ProcedureDefine where
  procedureName : Bytes
  procedureArgs : List Arg
  /-- the names in `params.addMember("[paramName]", [paramName]);` -/
  paramMembers : List Bytes
  /-- `"[serviceName].[procedureName]"` -/
  method : Bytes

/-- A method that sends a notification. Its template spells the method out. -/
structure NotifyDefine where
  notifyName : Bytes
  notifyArgs : List Arg
  paramMembers : List Bytes
  method : Bytes

structure Code where
  stubClassName : Bytes
  procedureDefinitions : List ProcedureDefine
  notifyDefinitions : List NotifyDefine

def getGenericArgs (params : Value) : Except Thrown (List Arg) := do
  (← params.getObject).mapM fun p => argTemplate p.1 p.2.getType

def getGenericParamMembers (params : Value) : Except Thrown (List Bytes) := do
  return (← params.getObject).map Prod.fst

def procedureDefine (serviceName : Bytes) (r : RpcReturn) : Except Thrown ProcedureDefine := do
  let procedureArgs ← getGenericArgs r.params
  let paramMembers ← getGenericParamMembers r.params
  return ⟨r.name, procedureArgs, paramMembers, serviceName ++ chr '.' :: r.name⟩

def notifyDefine (r : RpcNotify) : Except Thrown NotifyDefine := do
  let notifyArgs ← getGenericArgs r.params
  let paramMembers ← getGenericParamMembers r.params
  return ⟨r.name, notifyArgs, paramMembers, ascii "Hello.Goodbye"⟩

def getStub (serviceInfo : ServiceInfo) : Except Thrown Code := do
  let procedureDefinitions ← serviceInfo.rpcReturn.mapM (procedureDefine serviceInfo.name)
  let notifyDefinitions ← serviceInfo.rpcNotify.mapM notifyDefine
  return ⟨serviceInfo.name ++ ascii "ClientStub", procedureDefinitions, notifyDefinitions⟩

namespace ProcedureDefine

/-- `params.addMember("[paramName]", [paramName]);` for each name. -/
def addMembers (locals : List (Bytes × CppValue)) (params : Value) (names : List Bytes) :
    Except Thrown Value :=
  names.foldlM (fun params name => do params.addMember name (← readLocal locals name).toValue)
    params

/-- The body of the method, run on an open connection: the request it sends. -/
def call {ρ : Type} (d : ProcedureDefine) (client : RpcClient ρ) (args : List CppValue) (cb : ρ) :
    Except Thrown (RpcClient ρ × Value) := do
  let locals := (d.procedureArgs.map Arg.argName).zip args
  let params ← addMembers locals (.object []) d.paramMembers
  let call ← (Value.object []).addMember (ascii "jsonrpc") (.string (ascii "2.0"))
  let call ← call.addMember (ascii "method") (.string d.method)
  let call ← call.addMember (ascii "params") params
  client.sendCall call cb

end ProcedureDefine

/-- The body of the method, run on an open connection: the notification it
sends. `params` is built here too, and goes nowhere. -/
def NotifyDefine.call (d : NotifyDefine) (args : List CppValue) : Except Thrown Value := do
  let locals := (d.notifyArgs.map Arg.argName).zip args
  let _params ← ProcedureDefine.addMembers locals (.object []) d.paramMembers
  let notify ← (Value.object []).addMember (ascii "jsonrpc") (.string (ascii "2.0"))
  notify.addMember (ascii "method") (.string d.method)

/-! ## The request of a call -/

theorem argTemplate_name {p : Bytes × Value} {arg : Arg}
    (ok : argTemplate p.1 p.2.getType = .ok arg) : arg.argName = p.1 := by
  revert ok
  cases p.2.getType with
  | null => exact fun h => by cases h
  | bool | int32 | int64 | double | string | array | object =>
      intro h
      rw [← Except.ok.inj h]

/-- The parts of a generated method. -/
theorem procedureDefine_ok {serviceName : Bytes} {r : RpcReturn} {d : ProcedureDefine}
    {declared : List (Bytes × Value)} (shape : r.params = .object declared)
    (ok : procedureDefine serviceName r = .ok d) :
    d.procedureArgs.map Arg.argName = declared.map Prod.fst ∧
      d.paramMembers = declared.map Prod.fst ∧ d.method = serviceName ++ chr '.' :: r.name := by
  unfold procedureDefine at ok
  rw [shape] at ok
  obtain ⟨args, mapped, ok⟩ := except_bind_eq_ok.mp ok
  obtain ⟨members, names, ok⟩ := except_bind_eq_ok.mp ok
  obtain rfl := Except.ok.inj ok
  obtain rfl := Except.ok.inj names
  exact ⟨mapM_map_eq mapped Prod.fst Arg.argName fun p arg => argTemplate_name, rfl, rfl⟩

theorem notifyDefine_ok {r : RpcNotify} {d : NotifyDefine} {declared : List (Bytes × Value)}
    (shape : r.params = .object declared) (ok : notifyDefine r = .ok d) :
    d.notifyArgs.map Arg.argName = declared.map Prod.fst ∧
      d.paramMembers = declared.map Prod.fst ∧ d.method = ascii "Hello.Goodbye" := by
  unfold notifyDefine at ok
  rw [shape] at ok
  obtain ⟨args, mapped, ok⟩ := except_bind_eq_ok.mp ok
  obtain ⟨members, names, ok⟩ := except_bind_eq_ok.mp ok
  obtain rfl := Except.ok.inj ok
  obtain rfl := Except.ok.inj names
  exact ⟨mapM_map_eq mapped Prod.fst Arg.argName fun p arg => argTemplate_name, rfl, rfl⟩

/-- Members added under the names of variables hold their values. -/
theorem addMembers_eq {locals : List (Bytes × CppValue)} (distinct : (locals.map Prod.fst).Nodup) :
    ∀ added rest : List (Bytes × CppValue), locals = added ++ rest →
      ProcedureDefine.addMembers locals (.object (added.map fun l => (l.1, l.2.toValue)))
          (rest.map Prod.fst) =
        .ok (.object (locals.map fun l => (l.1, l.2.toValue)))
  | added, [], split => by
      rw [List.append_nil] at split
      rw [split]
      rfl
  | added, l :: rest, split => by
      have found : readLocal locals l.1 = .ok l.2 := by
        rw [readLocal, lookup_of_mem distinct (show (l.1, l.2) ∈ locals by simp [split])]
      have new : (added.map fun m => (m.1, m.2.toValue)).lookup l.1 = none := by
        rw [lookup_eq_none_iff, List.map_map]
        intro again
        rw [split, List.map_append, List.map_cons, List.nodup_append] at distinct
        exact distinct.2.2 l.1 again l.1 List.mem_cons_self rfl
      have added_l : (Value.object (added.map fun m => (m.1, m.2.toValue))).addMember l.1
          l.2.toValue = .ok (.object ((added ++ [l]).map fun m => (m.1, m.2.toValue))) := by
        rw [Value.addMember, new, List.map_append]
        rfl
      have step := addMembers_eq distinct (added ++ [l]) rest (by simp [split])
      rw [List.map_cons, ProcedureDefine.addMembers, List.foldlM_cons, found, except_ok_bind,
        added_l]
      exact step

/-- The parameters that a generated method builds from its arguments. -/
theorem addMembers_bound {params : Value} {bound : List ((Bytes × Value) × CppValue)}
    (declares : Declares params (bound.map Prod.fst)) :
    ProcedureDefine.addMembers (((bound.map Prod.fst).map Prod.fst).zip (bound.map Prod.snd))
        (.object []) ((bound.map Prod.fst).map Prod.fst) =
      .ok (.object (bound.map fun b => (b.1.1, b.2.toValue))) := by
  have locals : ((bound.map Prod.fst).map Prod.fst).zip (bound.map Prod.snd) =
      bound.map fun b => (b.1.1, b.2) := by
    rw [List.map_map, List.zip_map']
    rfl
  have built := addMembers_eq (declares.keys Prod.snd) [] (bound.map fun b => (b.1.1, b.2)) rfl
  rw [List.map_nil, List.map_map, List.map_map] at built
  rw [locals, List.map_map]
  exact built

/-- The members of the request that a generated method sends. -/
def callMembers (serviceName procedureName : Bytes) (params : List (Bytes × Value)) (id : Value) :
    List (Bytes × Value) :=
  [(ascii "jsonrpc", .string (ascii "2.0")),
    (ascii "method", .string (serviceName ++ chr '.' :: procedureName)),
    (ascii "params", .object params), (ascii "id", id)]

/-- **The notification of a generated method** has neither the name of the entry
nor the arguments. -/
theorem notify_eq {r : RpcNotify} {d : NotifyDefine}
    {bound : List ((Bytes × Value) × CppValue)} (declares : Declares r.params (bound.map Prod.fst))
    (ok : notifyDefine r = .ok d) :
    d.call (bound.map Prod.snd) = .ok (.object [(ascii "jsonrpc", .string (ascii "2.0")),
      (ascii "method", .string (ascii "Hello.Goodbye"))]) := by
  obtain ⟨names, members, method⟩ := notifyDefine_ok declares.1 ok
  rw [NotifyDefine.call, names, members, method]
  rw [addMembers_bound declares]
  rfl

end LaliRpc.Zrpc.ClientStub
