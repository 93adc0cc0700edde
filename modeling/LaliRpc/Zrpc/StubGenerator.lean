/-
# Zrpc.StubGenerator — descriptions of services

`StubGenerator.cpp`. A description is a JSON value with a service name and a
list of entries; an entry with `"returns"` is a procedure, any other a
notification. The type of a parameter is the type of the value it has in the
description.

All that the generators are promised about the parameters of an entry is
`Declares`: they are an object, and no name occurs twice. That none of them is
null is not checked: the switch in `validateParams` looks at the type of the
*key*, which is always a string.
-/
import LaliRpc.Jackson.Value
import LaliRpc.Theory.Traverse

namespace LaliRpc.Zrpc

open LaliRpc.Jackson LaliRpc.Theory

set_option autoImplicit false

def expect (result : Prop) [Decidable result] (errMsg : String) : Except Thrown Unit :=
  throwIf (¬ result) (.cstr errMsg)

structure RpcReturn where
  name : Bytes
  params : Value
  returns : Value

structure RpcNotify where
  name : Bytes
  params : Value

structure ServiceInfo where
  name : Bytes
  rpcReturn : List RpcReturn
  rpcNotify : List RpcNotify

namespace StubGenerator

/-- The loop of `validateParams` over the names, with those seen so far. -/
def validateNames (set : List Bytes) : List Bytes → Except Thrown Unit
  | [] => .ok ()
  | key :: keys => do
      expect (key ∉ set) "duplicate param name"
      validateNames (key :: set) keys

def validateParams (params : Value) : Except Thrown Unit := do
  let members ← params.getObject
  validateNames [] (members.map Prod.fst)

def validateReturns (returns : Value) : Except Thrown Unit :=
  match returns.getType with
  | .null | .array => .error (.cstr "bad returns type")
  | .object => validateParams returns
  | _ => .ok ()

/-- `findMember` with the check that something was found. -/
def expectMember (v : Value) (key : Bytes) (errMsg : String) : Except Thrown Value := do
  match ← v.findMember key with
  | some value => return value
  | none => throw (.cstr errMsg)

/-- The parameters of an entry, without any if it has no `"params"`. -/
def paramsOf (rpc : Value) : Except Thrown Value := do
  match ← rpc.findMember (ascii "params") with
  | some params =>
      validateParams params
      return params
  | none => return .object []

/-- `parseRpc`, which adds the entry to the description read so far. -/
def parseRpc (serviceInfo : ServiceInfo) (rpc : Value) : Except Thrown ServiceInfo := do
  expect rpc.isObject "rpc definition must be object"
  let name ← expectMember rpc (ascii "name") "missing name in rpc definition"
  expect name.isString "rpc name must be string"
  let paramValue ← paramsOf rpc
  match ← rpc.findMember (ascii "returns") with
  | some returns =>
      validateReturns returns
      let r : RpcReturn := ⟨← name.getStringView, paramValue, returns⟩
      return { serviceInfo with rpcReturn := serviceInfo.rpcReturn ++ [r] }
  | none =>
      let r : RpcNotify := ⟨← name.getStringView, paramValue⟩
      return { serviceInfo with rpcNotify := serviceInfo.rpcNotify ++ [r] }

def parseProto (proto : Value) : Except Thrown ServiceInfo := do
  expect proto.isObject "expect object"
  expect (proto.getSize = 2) "expect 'name' and 'rpc' fields in object"
  let name ← expectMember proto (ascii "name") "missing service name"
  expect name.isString "service name must be string"
  let rpc ← expectMember proto (ascii "rpc") "missing service rpc definition"
  match rpc with
  | .array rpcs => rpcs.foldlM parseRpc ⟨← name.getStringView, [], []⟩
  | _ => throw (.cstr "rpc field must be array")

end StubGenerator

/-! ## Types and values of the generated code -/

/-- The types of the arguments of generated methods. -/
inductive CppType where
  | bool | int32 | int64 | double | string
  /-- `json::Value` -/
  | json
  deriving DecidableEq, Repr

inductive CppValue where
  | bool (b : Bool)
  | int32 (i : Int32)
  | int64 (i : Int64)
  | double (d : Double)
  | string (s : Bytes)
  | json (value : Value)

namespace CppValue

def type : CppValue → CppType
  | .bool _ => .bool
  | .int32 _ => .int32
  | .int64 _ => .int64
  | .double _ => .double
  | .string _ => .string
  | .json _ => .json

/-- The value that the constructor of `json::Value` for the type makes. -/
def toValue : CppValue → Value
  | .bool b => .bool b
  | .int32 i => .int32 i
  | .int64 i => .int64 i
  | .double d => .double d
  | .string s => .string s
  | .json value => value

end CppValue

/-- The value of a local variable. Generated code reads no name it has not
declared. -/
def readLocal (locals : List (Bytes × CppValue)) (name : Bytes) : Except Thrown CppValue :=
  match locals.lookup name with
  | some value => .ok value
  | none => .error .assertion

/-- Variables read back in the order they were declared in. -/
theorem readLocals_eq {locals : List (Bytes × CppValue)} (distinct : (locals.map Prod.fst).Nodup) :
    (locals.map Prod.fst).mapM (readLocal locals) = .ok (locals.map Prod.snd) := by
  rw [mapM_ok_iff, List.forall₂_map_left_iff, List.forall₂_map_right_iff, List.forall₂_same]
  intro l mem
  rw [readLocal, lookup_of_mem distinct mem]

/-- The parameters of an entry, as the generators go through them. -/
def Declares (params : Value) (declared : List (Bytes × Value)) : Prop :=
  params = .object declared ∧ (declared.map Prod.fst).Nodup

/-- Parameters bound to arguments keep their distinct names, whatever is made of
the arguments. -/
theorem Declares.keys {params : Value} {bound : List ((Bytes × Value) × CppValue)}
    (declares : Declares params (bound.map Prod.fst)) {α : Type}
    (f : (Bytes × Value) × CppValue → α) :
    ((bound.map fun b => (b.1.1, f b)).map Prod.fst).Nodup := by
  have distinct := declares.2
  rw [List.map_map] at distinct ⊢
  exact distinct

namespace StubGenerator

@[simp] theorem expect_ok_iff {p : Prop} [Decidable p] {errMsg : String} {u : Unit} :
    expect p errMsg = .ok u ↔ p := by
  rw [expect, throwIf_ok_iff, not_not]

theorem validateNames_ok {set keys : List Bytes} (ok : validateNames set keys = .ok ()) :
    keys.Nodup ∧ ∀ key ∈ keys, key ∉ set := by
  induction keys generalizing set with
  | nil => exact ⟨List.nodup_nil, fun key mem => absurd mem List.not_mem_nil⟩
  | cons key keys ih =>
      obtain ⟨u, new, rest⟩ := except_bind_eq_ok.mp ok
      obtain ⟨distinct, others⟩ := ih rest
      rw [expect_ok_iff] at new
      refine ⟨List.nodup_cons.mpr ⟨fun again => others key again List.mem_cons_self, distinct⟩, ?_⟩
      intro other mem
      rcases List.mem_cons.mp mem with rfl | later
      · exact new
      · exact fun seen => others other later (List.mem_cons_of_mem _ seen)

theorem validateParams_ok {params : Value} (ok : validateParams params = .ok ()) :
    ∃ declared, Declares params declared := by
  obtain ⟨members, object, valid⟩ := except_bind_eq_ok.mp ok
  cases params with
  | object declared =>
      obtain rfl := Except.ok.inj object
      exact ⟨declared, rfl, (validateNames_ok valid).1⟩
  | null | bool _ | int32 _ | int64 _ | double _ | string _ | array _ => cases object

/-- The parameters of every entry are declared. -/
structure Described (info : ServiceInfo) : Prop where
  rpcReturn : ∀ r ∈ info.rpcReturn, ∃ declared, Declares r.params declared
  rpcNotify : ∀ r ∈ info.rpcNotify, ∃ declared, Declares r.params declared

theorem Described.addReturn {info : ServiceInfo} (described : Described info) {r : RpcReturn}
    (declares : ∃ declared, Declares r.params declared) :
    Described { info with rpcReturn := info.rpcReturn ++ [r] } := by
  refine ⟨?_, described.rpcNotify⟩
  intro q mem
  rcases List.mem_append.mp mem with old | new
  · exact described.rpcReturn q old
  · obtain rfl := List.mem_singleton.mp new
    exact declares

theorem Described.addNotify {info : ServiceInfo} (described : Described info) {r : RpcNotify}
    (declares : ∃ declared, Declares r.params declared) :
    Described { info with rpcNotify := info.rpcNotify ++ [r] } := by
  refine ⟨described.rpcReturn, ?_⟩
  intro q mem
  rcases List.mem_append.mp mem with old | new
  · exact described.rpcNotify q old
  · obtain rfl := List.mem_singleton.mp new
    exact declares

theorem paramsOf_ok {rpc params : Value} (ok : paramsOf rpc = .ok params) :
    ∃ declared, Declares params declared := by
  obtain ⟨found, -, ok⟩ := except_bind_eq_ok.mp ok
  cases found with
  | some value =>
      obtain ⟨u, valid, same⟩ := except_bind_eq_ok.mp ok
      obtain rfl := Except.ok.inj same
      exact validateParams_ok valid
  | none =>
      obtain rfl := Except.ok.inj ok
      exact ⟨[], rfl, List.nodup_nil⟩

theorem described_parseRpc (info : ServiceInfo) (rpc : Value) (info' : ServiceInfo)
    (described : Described info) (ok : parseRpc info rpc = .ok info') : Described info' := by
  unfold parseRpc at ok
  obtain ⟨-, -, ok⟩ := except_bind_eq_ok.mp ok
  obtain ⟨name, -, ok⟩ := except_bind_eq_ok.mp ok
  obtain ⟨-, -, ok⟩ := except_bind_eq_ok.mp ok
  obtain ⟨paramValue, params, ok⟩ := except_bind_eq_ok.mp ok
  obtain ⟨returns, -, ok⟩ := except_bind_eq_ok.mp ok
  have declares := paramsOf_ok params
  cases returns with
  | some returns =>
      obtain ⟨-, -, ok⟩ := except_bind_eq_ok.mp ok
      obtain ⟨view, -, ok⟩ := except_bind_eq_ok.mp ok
      obtain rfl := Except.ok.inj ok
      exact described.addReturn declares
  | none =>
      obtain ⟨view, -, ok⟩ := except_bind_eq_ok.mp ok
      obtain rfl := Except.ok.inj ok
      exact described.addNotify declares

/-- **An accepted description declares the parameters of every entry.** -/
theorem described_parseProto {proto : Value} {info : ServiceInfo}
    (accepted : parseProto proto = .ok info) : Described info := by
  unfold parseProto at accepted
  obtain ⟨-, -, accepted⟩ := except_bind_eq_ok.mp accepted
  obtain ⟨-, -, accepted⟩ := except_bind_eq_ok.mp accepted
  obtain ⟨name, -, accepted⟩ := except_bind_eq_ok.mp accepted
  obtain ⟨-, -, accepted⟩ := except_bind_eq_ok.mp accepted
  obtain ⟨rpc, -, accepted⟩ := except_bind_eq_ok.mp accepted
  cases rpc with
  | array rpcs =>
      obtain ⟨view, -, loop⟩ := except_bind_eq_ok.mp accepted
      refine foldlM_invariant described_parseRpc ⟨?_, ?_⟩ loop
      · exact fun r mem => absurd mem List.not_mem_nil
      · exact fun r mem => absurd mem List.not_mem_nil
  | null | bool _ | int32 _ | int64 _ | double _ | string _ | object _ => cases accepted

end StubGenerator

end LaliRpc.Zrpc
