/-
# Zrpc.StubChecks — what the checks let through

The constructor of a generator checks a description; the two `getStub` then walk
what it kept, each with a type switch of its own. Three things fall between the
checks and the walks:

* `validateParams` asserts that `"params"` is an object, where every other
  check complains (`Trips`);
* its switch looks at the type of the key, so a null parameter passes, and both
  generators assert that there is none (`NoNull`);
* nothing checks that an entry is the only one of its kind and name.

The constructor leaves at the first entry that is not well formed, so whether an
entry spoils a description depends on the entries before it (`Rejected`); a
description of well-formed entries is accepted (`accepted`).
-/
import LaliRpc.Zrpc.ClientStub
import LaliRpc.Zrpc.ServiceStub

namespace LaliRpc.Zrpc.StubChecks

open LaliRpc.Jackson LaliRpc.Theory StubGenerator

set_option autoImplicit false

/-! ## Descriptions -/

/-- The member of an object, `none` for any other value. -/
def field (v : Value) (key : Bytes) : Option Value :=
  match v with
  | .object members => members.lookup key
  | _ => none

/-- A description of the shape that the constructor asks for, whatever the
entries are. -/
structure Describes (proto : Value) (name : Bytes) (rpcs : List Value) : Prop where
  size : proto.getSize = 2
  name : field proto (ascii "name") = some (.string name)
  rpc : field proto (ascii "rpc") = some (.array rpcs)

/-- A value that `"returns"` may have. -/
def Returnable (returns : Value) : Prop :=
  returns.getType ≠ .null ∧ returns.getType ≠ .array ∧
    ∀ members, returns = .object members → (members.map Prod.fst).Nodup

/-- An entry without anything for the checks to complain about. -/
structure WellFormed (entry : Value) : Prop where
  named : ∃ name, field entry (ascii "name") = some (.string name)
  params : ∀ params, field entry (ascii "params") = some params →
    ∃ declared, Declares params declared
  returns : ∀ returns, field entry (ascii "returns") = some returns → Returnable returns

/-- An entry that gets as far as its parameters, which are not an object. -/
structure Trips (entry : Value) : Prop where
  named : ∃ name, field entry (ascii "name") = some (.string name)
  params : ∃ params, field entry (ascii "params") = some params ∧ params.getType ≠ .object

/-- No parameter of the entry is null. -/
def NoNull (entry : Value) : Prop :=
  ∀ declared, field entry (ascii "params") = some (.object declared) →
    ∀ m ∈ declared, m.2.getType ≠ .null

def entryName (entry : Value) : Bytes :=
  match field entry (ascii "name") with
  | some (.string name) => name
  | _ => []

def entryParams (entry : Value) : Value := (field entry (ascii "params")).getD (.object [])

/-- Any other entry is a notification. -/
def isProcedure (entry : Value) : Bool := (field entry (ascii "returns")).isSome

/-- The first entry that is not well formed is one the checks complain about. -/
def Rejected (rpcs : List Value) : Prop :=
  ∃ early bad late, rpcs = early ++ bad :: late ∧ (∀ entry ∈ early, WellFormed entry) ∧
    ¬ WellFormed bad ∧ ¬ Trips bad

/-! ## The checks -/

theorem expect_true {p : Prop} [Decidable p] (holds : p) (errMsg : String) :
    expect p errMsg = .ok () := by
  rw [expect_ok_iff]
  exact holds

theorem field_some {v : Value} {key : Bytes} {value : Value} (found : field v key = some value) :
    ∃ members, v = .object members ∧ members.lookup key = some value := by
  cases v with
  | object members => exact ⟨members, rfl, found⟩
  | null | bool _ | int32 _ | int64 _ | double _ | string _ | array _ => cases found

theorem expectMember_eq {v value : Value} {key : Bytes} (found : field v key = some value)
    (errMsg : String) : expectMember v key errMsg = .ok value := by
  obtain ⟨members, rfl, listed⟩ := field_some found
  rw [expectMember, Value.findMember_object, listed]
  rfl

theorem validateNames_eq {set keys : List Bytes} (distinct : keys.Nodup)
    (new : ∀ key ∈ keys, key ∉ set) : validateNames set keys = .ok () := by
  induction keys generalizing set with
  | nil => rfl
  | cons key keys ih =>
      obtain ⟨other, rest⟩ := List.nodup_cons.mp distinct
      rw [validateNames, expect_true (new key List.mem_cons_self), except_ok_bind]
      apply ih rest
      intro later mem seen
      rcases List.mem_cons.mp seen with rfl | old
      · exact other mem
      · exact new later (List.mem_cons_of_mem _ mem) old

theorem validateParams_eq {params : Value} {declared : List (Bytes × Value)}
    (declares : Declares params declared) : validateParams params = .ok () := by
  obtain ⟨rfl, distinct⟩ := declares
  apply validateNames_eq distinct
  exact fun key _ => List.not_mem_nil

theorem validateReturns_eq {returns : Value} (returnable : Returnable returns) :
    validateReturns returns = .ok () := by
  obtain ⟨notNull, notArray, distinct⟩ := returnable
  cases returns with
  | object members => exact validateParams_eq ⟨rfl, distinct members rfl⟩
  | null => exact absurd rfl notNull
  | array values => exact absurd rfl notArray
  | bool _ | int32 _ | int64 _ | double _ | string _ => rfl

def procedureOf (entry : Value) : Option RpcReturn :=
  (field entry (ascii "returns")).map fun returns =>
    ⟨entryName entry, entryParams entry, returns⟩

def notifyOf (entry : Value) : Option RpcNotify :=
  if isProcedure entry then none else some ⟨entryName entry, entryParams entry⟩

/-- What is left to check of an entry with a name. -/
theorem parseRpc_named {entry : Value} {name : Bytes}
    (named : field entry (ascii "name") = some (.string name)) (info : ServiceInfo) :
    parseRpc info entry = (do
      let paramValue ← paramsOf entry
      match field entry (ascii "returns") with
      | some returns =>
          validateReturns returns
          return { info with rpcReturn := info.rpcReturn ++ [⟨name, paramValue, returns⟩] }
      | none => return { info with rpcNotify := info.rpcNotify ++ [⟨name, paramValue⟩] }) := by
  obtain ⟨members, rfl, -⟩ := field_some named
  have object : expect ((Value.object members).isObject) "rpc definition must be object" = .ok () :=
    expect_true rfl _
  have isString : expect ((Value.string name).isString) "rpc name must be string" = .ok () :=
    expect_true rfl _
  rw [parseRpc, object, except_ok_bind, expectMember_eq named, except_ok_bind, isString,
    except_ok_bind, Value.findMember_object]
  rfl

theorem paramsOf_eq {members : List (Bytes × Value)}
    (declares : ∀ params, members.lookup (ascii "params") = some params →
      ∃ declared, Declares params declared) :
    paramsOf (.object members) = .ok (entryParams (.object members)) := by
  rw [paramsOf, entryParams, field, Value.findMember_object, except_ok_bind]
  cases found : members.lookup (ascii "params") with
  | none => rfl
  | some params =>
      obtain ⟨declared, valid⟩ := declares params found
      show (validateParams params >>= fun _ => pure params) = _
      rw [validateParams_eq valid]
      rfl

/-- A well-formed entry is added to the procedures or to the notifications. -/
theorem parseRpc_eq {entry : Value} (wellFormed : WellFormed entry) (info : ServiceInfo) :
    parseRpc info entry = .ok { info with
      rpcReturn := info.rpcReturn ++ (procedureOf entry).toList
      rpcNotify := info.rpcNotify ++ (notifyOf entry).toList } := by
  obtain ⟨⟨name, named⟩, params, returns⟩ := wellFormed
  have called : entryName entry = name := by rw [entryName, named]
  rw [parseRpc_named named]
  obtain ⟨members, rfl, -⟩ := field_some named
  rw [paramsOf_eq params, except_ok_bind, procedureOf, notifyOf, isProcedure, called]
  cases found : field (.object members) (ascii "returns") with
  | none => simp [pure, Except.pure]
  | some value =>
      have valid := validateReturns_eq (returns value found)
      simp [valid, pure, Except.pure]

/-- Well-formed entries are all kept, each kind in the order of the description. -/
theorem parseRpcs_eq {rpcs : List Value} (wellFormed : ∀ entry ∈ rpcs, WellFormed entry)
    (info : ServiceInfo) :
    rpcs.foldlM parseRpc info = .ok { info with
      rpcReturn := info.rpcReturn ++ rpcs.filterMap procedureOf
      rpcNotify := info.rpcNotify ++ rpcs.filterMap notifyOf } := by
  induction rpcs generalizing info with
  | nil => simp [pure, Except.pure]
  | cons entry rpcs ih =>
      obtain ⟨first, rest⟩ := List.forall_mem_cons.mp wellFormed
      rw [List.foldlM_cons, parseRpc_eq first, except_ok_bind, ih rest]
      cases procedure : procedureOf entry <;> cases notify : notifyOf entry <;>
        simp [procedure, notify]

theorem parseProto_eq {proto : Value} {name : Bytes} {rpcs : List Value}
    (describes : Describes proto name rpcs) :
    parseProto proto = rpcs.foldlM parseRpc ⟨name, [], []⟩ := by
  obtain ⟨size, named, rpc⟩ := describes
  obtain ⟨members, rfl, -⟩ := field_some named
  have object : expect ((Value.object members).isObject) "expect object" = .ok () :=
    expect_true rfl _
  have isString : expect ((Value.string name).isString) "service name must be string" = .ok () :=
    expect_true rfl _
  rw [parseProto, object, except_ok_bind, expect_true size, except_ok_bind, expectMember_eq named,
    except_ok_bind, isString, except_ok_bind, expectMember_eq rpc]
  rfl

/-- Parameters that both generators have a type for. -/
def Typed (params : Value) : Prop :=
  ∃ declared, params = .object declared ∧ ∀ m ∈ declared, m.2.getType ≠ .null

theorem getGenericParams_total_iff {declared : List (Bytes × Value)} :
    (∃ list, ServiceStubGenerator.getGenericParams (.object declared) = .ok list) ↔
      ∀ m ∈ declared, m.2.getType ≠ .null := by
  refine mapM_total_iff.trans (forall₂_congr fun m _ => ?_)
  cases m.2.getType with
  | null => simp
  | bool | int32 | int64 | double | string | array | object => simp

theorem argsDefineTemplate_total {type : ValueType} (typed : type ≠ .null) (arg : Bytes)
    (index : ServiceStubGenerator.Index) :
    ∃ define, ServiceStubGenerator.argsDefineTemplate arg index type = .ok define := by
  cases type with
  | null => exact absurd rfl typed
  | bool | int32 | int64 | double | string | array | object => exact ⟨_, rfl⟩

theorem stubBody_total {params : Value} (typed : Typed params) :
    ∃ body, ServiceStubGenerator.stubBody params = .ok body := by
  obtain ⟨declared, rfl, typed⟩ := typed
  have fromArray : ∃ defines,
      ServiceStubGenerator.getParamsFromJsonArray (.object declared) = .ok defines := by
    apply mapM_total_iff.mpr
    intro m mem
    apply argsDefineTemplate_total
    exact typed m.1 (List.fst_mem_of_mem_zipIdx mem)
  have fromObject : ∃ defines,
      ServiceStubGenerator.getParamsFromJsonObject (.object declared) = .ok defines := by
    apply mapM_total_iff.mpr
    intro m mem
    exact argsDefineTemplate_total (typed m mem) _ _
  obtain ⟨array, fromArray⟩ := fromArray
  obtain ⟨object, fromObject⟩ := fromObject
  rw [ServiceStubGenerator.stubBody, fromArray, fromObject]
  by_cases some : (Value.object declared).getSize > 0
  · rw [if_pos some]
    exact ⟨_, rfl⟩
  · rw [if_neg some]
    exact ⟨_, rfl⟩

theorem binding_total {params : Value} (typed : Typed params) (name : Bytes) :
    ∃ b, ServiceStubGenerator.binding name params = .ok b := by
  obtain ⟨declared, rfl, typed⟩ := typed
  obtain ⟨list, made⟩ := getGenericParams_total_iff.mpr typed
  rw [ServiceStubGenerator.binding, made]
  exact ⟨_, rfl⟩

/-- The generated server of a description without null parameters. -/
theorem service_total {info : ServiceInfo} (returns : ∀ r ∈ info.rpcReturn, Typed r.params)
    (notifies : ∀ r ∈ info.rpcNotify, Typed r.params) :
    ∃ code, ServiceStubGenerator.getStub info = .ok code := by
  have procedureDefine : ∀ r ∈ info.rpcReturn,
      ∃ d, ServiceStubGenerator.procedureDefine r = .ok d := by
    intro r mem
    obtain ⟨body, made⟩ := stubBody_total (returns r mem)
    rw [ServiceStubGenerator.procedureDefine, made]
    exact ⟨_, rfl⟩
  have notifyDefine : ∀ r ∈ info.rpcNotify,
      ∃ d, ServiceStubGenerator.notifyDefine r = .ok d := by
    intro r mem
    obtain ⟨body, made⟩ := stubBody_total (notifies r mem)
    rw [ServiceStubGenerator.notifyDefine, made]
    cases body with
    | direct => exact ⟨_, rfl⟩
    | fromJson fromArray fromObject args => exact ⟨_, rfl⟩
  obtain ⟨bindings, bound⟩ := mapM_total_iff.mpr fun r mem => binding_total (returns r mem) r.name
  obtain ⟨notifyBindings, notifyBound⟩ :=
    mapM_total_iff.mpr fun r mem => binding_total (notifies r mem) r.name
  obtain ⟨definitions, defined⟩ := mapM_total_iff.mpr procedureDefine
  obtain ⟨notifyDefinitions, notifyDefined⟩ := mapM_total_iff.mpr notifyDefine
  rw [ServiceStubGenerator.getStub, bound, except_ok_bind, notifyBound, except_ok_bind, defined,
    except_ok_bind, notifyDefined]
  exact ⟨_, rfl⟩

/-! ## What is kept of the entries -/

theorem typed_iff {entry : Value} (wellFormed : WellFormed entry) :
    Typed (entryParams entry) ↔ NoNull entry := by
  unfold NoNull entryParams
  cases found : field entry (ascii "params") with
  | none =>
      constructor
      · intro _ declared absent
        cases absent
      · intro _
        exact ⟨[], rfl, fun m mem => absurd mem List.not_mem_nil⟩
  | some params =>
      obtain ⟨declared, rfl, -⟩ := wellFormed.params params found
      constructor
      · rintro ⟨_, ⟨⟩, typed⟩ _ ⟨⟩
        exact typed
      · intro noNull
        exact ⟨declared, rfl, noNull declared rfl⟩

theorem kept_params {rpcs : List Value} {entry : Value} (mem : entry ∈ rpcs) :
    (∃ r ∈ rpcs.filterMap procedureOf, r.params = entryParams entry) ∨
      ∃ r ∈ rpcs.filterMap notifyOf, r.params = entryParams entry := by
  cases found : field entry (ascii "returns") with
  | some returns =>
      refine .inl ⟨⟨entryName entry, entryParams entry, returns⟩, ?_, rfl⟩
      exact List.mem_filterMap.mpr ⟨entry, mem, by simp [procedureOf, found]⟩
  | none =>
      refine .inr ⟨⟨entryName entry, entryParams entry⟩, ?_, rfl⟩
      exact List.mem_filterMap.mpr ⟨entry, mem, by simp [notifyOf, isProcedure, found]⟩

theorem procedure_params {rpcs : List Value} {r : RpcReturn}
    (mem : r ∈ rpcs.filterMap procedureOf) : ∃ entry ∈ rpcs, r.params = entryParams entry := by
  obtain ⟨entry, listed, kept⟩ := List.mem_filterMap.mp mem
  obtain ⟨returns, -, rfl⟩ := Option.map_eq_some_iff.mp kept
  exact ⟨entry, listed, rfl⟩

theorem notify_params {rpcs : List Value} {r : RpcNotify} (mem : r ∈ rpcs.filterMap notifyOf) :
    ∃ entry ∈ rpcs, r.params = entryParams entry := by
  obtain ⟨entry, listed, kept⟩ := List.mem_filterMap.mp mem
  refine ⟨entry, listed, ?_⟩
  by_cases procedure : isProcedure entry
  · rw [notifyOf, if_pos procedure] at kept
    cases kept
  · rw [notifyOf, if_neg procedure] at kept
    rw [← Option.some.inj kept]

theorem procedure_names (rpcs : List Value) :
    (rpcs.filterMap procedureOf).map RpcReturn.name = (rpcs.filter isProcedure).map entryName := by
  induction rpcs with
  | nil => rfl
  | cons entry rpcs ih =>
      cases found : field entry (ascii "returns") <;>
        simp [procedureOf, isProcedure, found, ih]

theorem notify_names (rpcs : List Value) :
    (rpcs.filterMap notifyOf).map RpcNotify.name =
      (rpcs.filter (! isProcedure ·)).map entryName := by
  induction rpcs with
  | nil => rfl
  | cons entry rpcs ih =>
      cases found : field entry (ascii "returns") <;>
        simp [notifyOf, isProcedure, found, ih]

/-- Entries of distinct names are bound to stub functions of distinct names. -/
theorem stubNames_distinct {names : List Bytes} (distinct : names.Nodup) :
    (names.map ServiceStubGenerator.getStubGenericName).Nodup := by
  apply List.Nodup.map _ distinct
  intro a b same
  exact List.append_cancel_right same

/-- **The constructor of the generated server gets past its registrations**, if
no name is registered twice. -/
theorem construct_registers {info : ServiceInfo} {code : ServiceStubGenerator.Code}
    (ok : ServiceStubGenerator.getStub info = .ok code)
    (procedures : (code.procedureBindings.map ServiceStubGenerator.Binding.name).Nodup)
    (notifies : (code.notifyBindings.map ServiceStubGenerator.Binding.name).Nodup)
    (server : RpcServer ServiceStubGenerator.ProcedureDefine ServiceStubGenerator.NotifyDefine) :
    code.construct server = server.addService info.name code.service := by
  have generated := ServiceStubGenerator.getStub_ok ok
  apply ServiceStubGenerator.Code.construct_eq generated
  constructor
  · rw [ServiceStubGenerator.bindings_named generated.procedureBindings] at procedures
    rw [mapM_map_eq generated.procedureDefinitions
      (fun r => ServiceStubGenerator.getStubGenericName r.name) _
      fun r d made => (ServiceStubGenerator.procedureDefine_ok made).1]
    have stubs := stubNames_distinct procedures
    rw [List.map_map] at stubs
    exact stubs
  · rw [ServiceStubGenerator.bindings_named generated.notifyBindings] at notifies
    rw [mapM_map_eq generated.notifyDefinitions
      (fun r => ServiceStubGenerator.getStubGenericName r.name) _
      fun r d made => ServiceStubGenerator.notifyDefine_ok made]
    have stubs := stubNames_distinct notifies
    rw [List.map_map] at stubs
    exact stubs

/-! ## What is kept of a description -/

/-- A description of well-formed entries is accepted. -/
theorem accepted {proto : Value} {name : Bytes} {rpcs : List Value}
    (describes : Describes proto name rpcs) (wellFormed : ∀ entry ∈ rpcs, WellFormed entry) :
    parseProto proto =
      .ok ⟨name, rpcs.filterMap procedureOf, rpcs.filterMap notifyOf⟩ := by
  rw [parseProto_eq describes, parseRpcs_eq wellFormed]
  rfl

/-! ## Small descriptions -/

/-- `{"name":"S","rpc":[…]}` -/
def service (rpcs : List Value) : Value :=
  .object [(ascii "name", .string (ascii "S")), (ascii "rpc", .array rpcs)]

/-- `{"name":"f","params":…}` -/
def entryWith (params : Value) : Value :=
  .object [(ascii "name", .string (ascii "f")), (ascii "params", params)]

end LaliRpc.Zrpc.StubChecks
