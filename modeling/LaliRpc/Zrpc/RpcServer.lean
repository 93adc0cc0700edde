/-
# Zrpc.RpcServer — dispatch of requests, notifications and batches

`Rpcserver.cpp`. A request goes through two stages: everything up to the service
lookup throws an `Exception`, and everything after it (`RpcService`,
`Procedure`) throws a C string. `Routed` says what the first stage accepts, in
terms of the request alone, and `Accepted` adds the second. The three outcomes
of `handleSingleRequest` on an object are then

* accepted: the procedure's callback is called (`handleSingleRequest_accepted`);
* routed but not accepted: a C string (`handleSingleRequest_refused`);
* not routed: an `Exception` (`handleSingleRequest_not_routed`).

`handleSingleNotify` has no such cases: its validator asks for the `"id"` whose
absence brought the request there (`handleSingleNotify_throws`).
-/
import LaliRpc.Jackson.Reader
import LaliRpc.Zrpc.Procedure

namespace LaliRpc.Zrpc

open LaliRpc.Jackson LaliRpc.Theory

set_option autoImplicit false

def hasParams (request : Value) : Except Thrown Bool := do
  return (← request.findMember (ascii "params")).isSome

def isNotify (request : Value) : Except Thrown Bool := do
  return (← request.findMember (ascii "id")).isNone

/-- The type must be one of the listed ones. -/
def checkValueType : List ValueType → ValueType → Except Thrown Unit
  | [], _ => .error (.exception "bad type ")
  | dst :: rest, type => if type = dst then .ok () else checkValueType rest type

def findValue (types : List ValueType) (request : Value) (key : Bytes) : Except Thrown Value := do
  match ← request.findMember key with
  | none => throw (.exception "missing at least one filed")
  | some value =>
      checkValueType types value.getType
      return value

/-- The body of both validators. They differ in the number of members they
expect besides `params`. -/
def validateMembers (expected : Nat) (request : Value) : Except Thrown Unit := do
  let _id ← findValue [.string, .int32, .int64] request (ascii "id")
  let version ← findValue [.string] request (ascii "jsonrpc")
  let versionView ← version.getStringView
  throwIf (versionView ≠ ascii "2.0") (.exception "jsonrpc version is unknown")
  let method ← findValue [.string] request (ascii "method")
  let methodView ← method.getStringView
  throwIf (methodView = ascii "rpc.") (.exception "method name is internal used")
  let params ← hasParams request
  let nMembers := expected + if params then 1 else 0
  throwIf (request.getSize ≠ nMembers) (.exception "unexpected field")

def validateRequest (request : Value) : Except Thrown Unit := validateMembers 3 request

/-- It expects two members besides `params`, and still asks for an id. -/
def validateNotify (request : Value) : Except Thrown Unit := validateMembers 2 request

structure RpcServer (κ ν : Type) where
  serviceList : Table Bytes (RpcService κ ν)

namespace RpcServer

variable {κ ν : Type}

def empty : RpcServer κ ν := ⟨.empty⟩

def addService (server : RpcServer κ ν) (serviceName : Bytes) (service : RpcService κ ν) :
    Except Thrown (RpcServer κ ν) :=
  if (server.serviceList.find serviceName).isSome then .error .assertion
  else .ok ⟨server.serviceList.emplace serviceName service⟩

/-- The service a method name belongs to, and the rest of the name. -/
def findService (server : RpcServer κ ν) (methodName : Bytes) :
    Except Thrown (RpcService κ ν × Bytes) :=
  match methodName.idxOf? (chr '.') with
  | none => throw (.exception "missing service Name in method")
  | some pos =>
      match server.serviceList.find (methodName.take pos) with
      | none => throw (.exception "serviceName not found")
      | some service =>
          if (methodName.drop (pos + 1)).length = 0 then
            throw (.exception "missing method name in method")
          else .ok (service, methodName.drop (pos + 1))

def handleSingleRequest (server : RpcServer κ ν) (request : Value) (done : RpcDoneCallback) :
    Exec (Event κ ν) Thrown Unit := do
  validateRequest request
  let _id ← request.member (ascii "id")
  let method ← request.member (ascii "method")
  let methodName ← method.getStringView
  let found ← server.findService methodName
  found.1.callProcedureReturn found.2 request done

def handleSingleNotify (server : RpcServer κ ν) (request : Value) :
    Exec (Event κ ν) Thrown Unit := do
  validateNotify request
  let method ← request.member (ascii "method")
  let methodName ← method.getStringView
  let found ← server.findService methodName
  found.1.callProcedureNotify found.2 request

/-- The callback of the calls in a batch. -/
def addResponse : RpcDoneCallback := fun response => [.addResponse response]

/-- One pass of the loop over a batch. The callback is a temporary that holds a
copy of the batch's responses until the statement is left. -/
def handleElement (server : RpcServer κ ν) (request : Value) : Exec (Event κ ν) Thrown Unit := do
  if !request.isObject then
    Exec.raise (.exception "request json is bad")
  else if ← isNotify request then
    server.handleSingleNotify request
  else
    Exec.emit .copyResponses
    (server.handleSingleRequest request addResponse).leaving .dropResponses

def handleBatchRequests (server : RpcServer κ ν) (requests : List Value)
    (done : RpcDoneCallback) : Exec (Event κ ν) Thrown Unit :=
  if requests.length = 0 then
    Exec.raise (.exception "batch request is empty")
  else do
    Exec.emit (.makeResponses done)
    (Exec.forEach server.handleElement requests).leaving .dropResponses

/-- The switch of `handleRequest` on the type of what was parsed. -/
def dispatch (server : RpcServer κ ν) (request : Value) (done : RpcDoneCallback) :
    Exec (Event κ ν) Thrown Unit :=
  match request with
  | .object members => do
      if ← isNotify (.object members) then
        server.handleSingleNotify (.object members)
      else
        server.handleSingleRequest (.object members) done
  | .array requests => server.handleBatchRequests requests done
  | _ => Exec.raise (.exception "request should be json object or array")

def handleRequest (server : RpcServer κ ν) (json : Bytes) (done : RpcDoneCallback) :
    Exec (Event κ ν) Thrown Unit :=
  match parse json with
  | .error .assertion => Exec.raise .assertion
  | .error (.error _) => Exec.raise (.exception "parse failed")
  | .ok request => server.dispatch request done

end RpcServer

/-! ## What the validators accept -/

/-- The fault of every check up to the service lookup. -/
def isException (t : Thrown) : Prop := ∃ msg, t = .exception msg

def hasType (types : List ValueType) (v : Value) : Prop := v.getType ∈ types

instance (types : List ValueType) (v : Value) : Decidable (hasType types v) :=
  inferInstanceAs (Decidable (v.getType ∈ types))

section Validators

variable {members : List (Bytes × Value)}

theorem checkValueType_ok_iff {types : List ValueType} {type : ValueType} :
    checkValueType types type = .ok () ↔ type ∈ types := by
  induction types with
  | nil => simp [checkValueType]
  | cons dst rest ih =>
      by_cases same : type = dst
      · simp [checkValueType, same]
      · simp [checkValueType, same, ih]

theorem checkValueType_faults (types : List ValueType) (type : ValueType) :
    Faults isException (checkValueType types type) := by
  induction types with
  | nil => exact faults_error _ ⟨_, rfl⟩
  | cons dst rest ih =>
      unfold checkValueType
      split
      · exact faults_ok _ _
      · exact ih

theorem findValue_ok_iff {types : List ValueType} {key : Bytes} {v : Value} :
    findValue types (.object members) key = .ok v ↔
      members.lookup key = some v ∧ hasType types v := by
  simp only [findValue, Value.findMember_object, except_ok_bind]
  cases members.lookup key with
  | none => exact iff_of_false (fun h => by cases h) (fun h => by cases h.1)
  | some value =>
      show (checkValueType types value.getType >>= fun _ => .ok value) = .ok v ↔ _
      rw [except_bind_eq_ok]
      constructor
      · rintro ⟨⟨⟩, checked, same⟩
        obtain rfl : value = v := Except.ok.inj same
        exact ⟨rfl, checkValueType_ok_iff.mp checked⟩
      · rintro ⟨same, typed⟩
        obtain rfl : value = v := Option.some.inj same
        exact ⟨(), checkValueType_ok_iff.mpr typed, rfl⟩

theorem findValue_faults (types : List ValueType) (key : Bytes) :
    Faults isException (findValue types (.object members) key) := by
  simp only [findValue, Value.findMember_object, except_ok_bind]
  cases members.lookup key with
  | none => exact faults_error _ ⟨_, rfl⟩
  | some value => exact (checkValueType_faults _ _).bind fun _ _ => faults_ok _ _

/-- A missing member is reported as such. -/
theorem findValue_missing {types : List ValueType} {key : Bytes}
    (missing : members.lookup key = none) :
    findValue types (.object members) key = .error (.exception "missing at least one filed") := by
  simp only [findValue, Value.findMember_object, except_ok_bind, missing]
  rfl

theorem hasParams_object :
    hasParams (.object members) = .ok (members.lookup (ascii "params")).isSome := rfl

theorem isNotify_object :
    isNotify (.object members) = .ok (members.lookup (ascii "id")).isNone := rfl

/-- What both validators accept. -/
theorem validateMembers_ok_iff {expected : Nat} :
    validateMembers expected (.object members) = .ok () ↔
      (∃ id, members.lookup (ascii "id") = some id ∧ hasType [.string, .int32, .int64] id) ∧
      members.lookup (ascii "jsonrpc") = some (.string (ascii "2.0")) ∧
      (∃ m, members.lookup (ascii "method") = some (.string m) ∧ m ≠ ascii "rpc.") ∧
      members.length =
        expected + if (members.lookup (ascii "params")).isSome then 1 else 0 := by
  simp only [validateMembers, except_bind_eq_ok, findValue_ok_iff, Value.getStringView_ok_iff,
    throwIf_ok_iff, hasParams_object]
  constructor
  · rintro ⟨id, foundId, version, ⟨foundVersion, -⟩, _, rfl, -, known, method, ⟨foundMethod, -⟩,
      m, rfl, -, free, _, ⟨⟩, count⟩
    exact ⟨⟨id, foundId⟩, not_not.mp known ▸ foundVersion, ⟨m, foundMethod, free⟩,
      not_not.mp count⟩
  · rintro ⟨⟨id, foundId⟩, foundVersion, ⟨m, foundMethod, free⟩, count⟩
    exact ⟨id, foundId, _, ⟨foundVersion, List.mem_singleton_self _⟩, _, rfl, (), not_not.mpr rfl,
      _, ⟨foundMethod, List.mem_singleton_self _⟩, m, rfl, (), free, _, rfl,
      not_not.mpr count⟩

theorem throwIf_faults {p : Prop} [Decidable p] {t : Thrown} (h : isException t) :
    Faults isException (throwIf p t) := by
  unfold throwIf
  split
  · exact faults_error _ h
  · exact faults_ok _ _

/-- A found string can be viewed. -/
theorem findString_faults {α : Type} {key : Bytes} {k : Bytes → Except Thrown α}
    (rest : ∀ s, Faults isException (k s)) :
    Faults isException (findValue [.string] (.object members) key >>= fun v =>
      v.getStringView >>= k) := by
  refine (findValue_faults _ _).bind fun v found => ?_
  obtain ⟨-, typed⟩ := findValue_ok_iff.mp found
  have isString : v.getType = .string := List.mem_singleton.mp typed
  cases v with
  | string s => exact rest s
  | null | bool _ | int32 _ | int64 _ | double _ | array _ | object _ => cases isString

/-- The validators only ever throw an `Exception`. -/
theorem validateMembers_faults (expected : Nat) :
    Faults isException (validateMembers expected (.object members)) := by
  refine (findValue_faults _ _).bind fun _ _ => ?_
  refine findString_faults fun version => ?_
  refine (throwIf_faults ⟨_, rfl⟩).bind fun _ _ => ?_
  refine findString_faults fun method => ?_
  refine (throwIf_faults ⟨_, rfl⟩).bind fun _ _ => ?_
  rw [hasParams_object, except_ok_bind]
  exact throwIf_faults ⟨_, rfl⟩

end Validators

/-! ## Where a request goes -/

section Dispatch

variable {κ ν : Type} {server : RpcServer κ ν} {members : List (Bytes × Value)}

theorem findService_ok_iff {method name : Bytes} {service : RpcService κ ν} :
    server.findService method = .ok (service, name) ↔
      ∃ s, method = s ++ chr '.' :: name ∧ chr '.' ∉ s ∧ name ≠ [] ∧
        server.serviceList.find s = some service := by
  constructor
  · intro found
    unfold RpcServer.findService at found
    split at found
    · cases found
    · rename_i pos dot
      split at found
      · cases found
      · rename_i registered
        split at found
        · cases found
        · rename_i nonempty
          cases found
          obtain ⟨split, free⟩ := split_of_idxOf? dot
          exact ⟨_, split, free, List.length_eq_zero_iff.not.mp nonempty, registered⟩
  · rintro ⟨s, rfl, free, nonempty, registered⟩
    have rest : (s ++ chr '.' :: name).drop (s.length + 1) = name := by
      rw [List.append_cons, List.drop_left' (by simp)]
    simp only [RpcServer.findService, idxOf?_split free, List.take_left, registered, rest]
    rw [if_neg (List.length_eq_zero_iff.not.mpr nonempty)]

theorem findService_faults (method : Bytes) : Faults isException (server.findService method) := by
  unfold RpcServer.findService
  split
  · exact faults_error _ ⟨_, rfl⟩
  · split
    · exact faults_error _ ⟨_, rfl⟩
    · split
      · exact faults_error _ ⟨_, rfl⟩
      · exact faults_ok _ _

/-- The request is a call by its members alone, and it names a method `name` of
the registered service `service`. -/
structure Routed (server : RpcServer κ ν) (members : List (Bytes × Value))
    (service : RpcService κ ν) (name : Bytes) : Prop where
  id : ∃ v, members.lookup (ascii "id") = some v ∧ hasType [.string, .int32, .int64] v
  version : members.lookup (ascii "jsonrpc") = some (.string (ascii "2.0"))
  method : ∃ s, members.lookup (ascii "method") = some (.string (s ++ chr '.' :: name)) ∧
    chr '.' ∉ s ∧ name ≠ [] ∧ server.serviceList.find s = some service
  fields : members.map Prod.fst ⊆
    [ascii "id", ascii "jsonrpc", ascii "method", ascii "params"]

/-- Counting the members of a request that has the required ones is checking
their names. -/
theorem count_iff_fields (distinct : (members.map Prod.fst).Nodup)
    (id : ascii "id" ∈ members.map Prod.fst) (version : ascii "jsonrpc" ∈ members.map Prod.fst)
    (method : ascii "method" ∈ members.map Prod.fst) :
    members.length = 3 + (if (members.lookup (ascii "params")).isSome then 1 else 0) ↔
      members.map Prod.fst ⊆
        [ascii "id", ascii "jsonrpc", ascii "method", ascii "params"] := by
  cases params : members.lookup (ascii "params") with
  | some v =>
      have needed : [ascii "id", ascii "jsonrpc", ascii "method", ascii "params"] ⊆
          members.map Prod.fst := by
        simp [id, version, method, mem_keys_of_lookup params]
      have count := length_eq_iff_subset (by decide) distinct needed
      simpa using count
  | none =>
      have needed : [ascii "id", ascii "jsonrpc", ascii "method"] ⊆ members.map Prod.fst := by
        simp [id, version, method]
      have absent := lookup_eq_none_iff.mp params
      have count := length_eq_iff_subset (by decide) distinct needed
      rw [List.length_map] at count
      refine Iff.trans (by simp) (count.trans ?_)
      constructor
      · intro only k hk
        exact List.mem_append_left [ascii "params"] (only hk)
      · intro only k hk
        rcases List.mem_append.mp (show k ∈ [ascii "id", ascii "jsonrpc", ascii "method"] ++
          [ascii "params"] from only hk) with required | extra
        · exact required
        · obtain rfl : k = ascii "params" := List.mem_singleton.mp extra
          exact absurd hk absent

/-- A method name with a service and a method is not the internal `rpc.`. -/
theorem ne_internal {s name : Bytes} (free : chr '.' ∉ s) (nonempty : name ≠ []) :
    s ++ chr '.' :: name ≠ ascii "rpc." := by
  intro same
  have internal : ascii "rpc." = ascii "rpc" ++ chr '.' :: [] := by decide
  have pos := idxOf?_split free name
  rw [same, internal, idxOf?_split (by decide)] at pos
  have len : (ascii "rpc").length = s.length := Option.some.inj pos
  rw [internal] at same
  have tails := (List.append_inj same len.symm).2
  exact nonempty (List.cons.inj tails).2

/-- **Routing is what validation and the service lookup accept.** -/
theorem routed_iff (distinct : (members.map Prod.fst).Nodup) {service : RpcService κ ν}
    {name : Bytes} :
    Routed server members service name ↔
      validateRequest (.object members) = .ok () ∧
        ∃ m, members.lookup (ascii "method") = some (.string m) ∧
          server.findService m = .ok (service, name) := by
  rw [validateRequest, validateMembers_ok_iff]
  constructor
  · rintro ⟨⟨id, foundId, typed⟩, version, ⟨s, method, free, nonempty, registered⟩, fields⟩
    have count := (count_iff_fields distinct (mem_keys_of_lookup foundId)
      (mem_keys_of_lookup version) (mem_keys_of_lookup method)).mpr fields
    exact ⟨⟨⟨id, foundId, typed⟩, version, ⟨_, method, ne_internal free nonempty⟩, count⟩,
      _, method, findService_ok_iff.mpr ⟨s, rfl, free, nonempty, registered⟩⟩
  · rintro ⟨⟨⟨id, foundId, typed⟩, version, -, count⟩, m, method, found⟩
    obtain ⟨s, rfl, free, nonempty, registered⟩ := findService_ok_iff.mp found
    have fields := (count_iff_fields distinct (mem_keys_of_lookup foundId)
      (mem_keys_of_lookup version) (mem_keys_of_lookup method)).mp count
    exact ⟨⟨id, foundId, typed⟩, version, ⟨s, method, free, nonempty, registered⟩, fields⟩

theorem member_of_lookup {key : Bytes} {v : Value} (found : members.lookup key = some v) :
    (Value.object members).member key = .ok v := by
  simp [Value.member, found]

/-- A routed request reaches its service. -/
theorem handleSingleRequest_routed (distinct : (members.map Prod.fst).Nodup)
    {service : RpcService κ ν} {name : Bytes} (routed : Routed server members service name)
    (done : RpcDoneCallback) :
    server.handleSingleRequest (.object members) done =
      service.callProcedureReturn name (.object members) done := by
  obtain ⟨valid, m, method, found⟩ := (routed_iff distinct).mp routed
  obtain ⟨id, foundId, -⟩ := routed.id
  simp only [RpcServer.handleSingleRequest, valid, member_of_lookup foundId,
    member_of_lookup method, Value.getStringView, found, Exec.monadLift_eq, Exec.ofExcept_ok,
    Exec.pure_bind]

/-- Any other object ends in an `Exception`, before anything has happened. -/
theorem handleSingleRequest_not_routed (distinct : (members.map Prod.fst).Nodup)
    (unrouted : ¬ ∃ service name, Routed server members service name) (done : RpcDoneCallback) :
    ∃ msg, server.handleSingleRequest (.object members) done = Exec.raise (.exception msg) := by
  cases valid : validateRequest (.object members) with
  | error t =>
      obtain ⟨msg, rfl⟩ := validateMembers_faults 3 t valid
      refine ⟨msg, ?_⟩
      simp [RpcServer.handleSingleRequest, valid]
  | ok u =>
      obtain ⟨⟨id, foundId, -⟩, -, ⟨m, method, -⟩, -⟩ := validateMembers_ok_iff.mp valid
      cases found : server.findService m with
      | error t =>
          obtain ⟨msg, rfl⟩ := findService_faults m t found
          refine ⟨msg, ?_⟩
          simp [RpcServer.handleSingleRequest, valid, member_of_lookup foundId,
            member_of_lookup method, Value.getStringView, found]
      | ok r =>
          exact absurd ⟨r.1, r.2, (routed_iff distinct).mpr ⟨valid, m, method, found⟩⟩ unrouted

/-- The request is routed to a procedure `p` that is registered under its name,
and its parameters pass the check of `p`. -/
structure Accepted (server : RpcServer κ ν) (members : List (Bytes × Value))
    (p : Procedure κ) : Prop where
  routed : ∃ service name, Routed server members service name ∧
    service.procedureReturnList.find name = some p
  params : p.validateGeneric (.object members) = .ok true

/-- A routed request whose procedure takes it is a call of that procedure. -/
theorem callProcedureReturn_ok {service : RpcService κ ν} {name : Bytes} {p : Procedure κ}
    (registered : service.procedureReturnList.find name = some p)
    (params : p.validateGeneric (.object members) = .ok true) (done : RpcDoneCallback) :
    service.callProcedureReturn name (.object members) done =
      ⟨[.callReturn p.callback (.object members) done], .ok ()⟩ := by
  simp only [RpcService.callProcedureReturn, registered, Procedure.invokeReturn,
    Procedure.validateRequest_object params, if_true, Exec.monadLift_eq, Exec.ofExcept_ok,
    Exec.pure_bind]
  rfl

theorem handleSingleRequest_accepted (distinct : (members.map Prod.fst).Nodup)
    {p : Procedure κ} (accepted : Accepted server members p) (done : RpcDoneCallback) :
    server.handleSingleRequest (.object members) done =
      ⟨[.callReturn p.callback (.object members) done], .ok ()⟩ := by
  obtain ⟨service, name, routed, registered⟩ := accepted.routed
  rw [handleSingleRequest_routed distinct routed, callProcedureReturn_ok registered accepted.params]

/-- A routed request that no procedure takes ends in a C string. -/
theorem handleSingleRequest_refused (distinct : (members.map Prod.fst).Nodup)
    {service : RpcService κ ν} {name : Bytes} (routed : Routed server members service name)
    (refused : ¬ ∃ p, Accepted server members p) (done : RpcDoneCallback) :
    ∃ msg, server.handleSingleRequest (.object members) done = Exec.raise (.cstr msg) := by
  rw [handleSingleRequest_routed distinct routed]
  cases registered : service.procedureReturnList.find name with
  | none => exact ⟨_, by rw [RpcService.callProcedureReturn, registered]⟩
  | some p =>
      obtain ⟨b, params⟩ := p.validateGeneric_object members
      cases b with
      | true => exact absurd ⟨p, ⟨service, name, routed, registered⟩, params⟩ refused
      | false =>
          refine ⟨"params name or type mismatch", ?_⟩
          simp only [RpcService.callProcedureReturn, registered, Procedure.invokeReturn,
            Procedure.validateRequest_object params]
          rfl

/-- Whatever is not accepted throws before anything has happened. -/
theorem handleSingleRequest_not_accepted (distinct : (members.map Prod.fst).Nodup)
    (refused : ¬ ∃ p, Accepted server members p) (done : RpcDoneCallback) :
    ∃ t, server.handleSingleRequest (.object members) done = Exec.raise t := by
  by_cases routed : ∃ service name, Routed server members service name
  · obtain ⟨service, name, routed⟩ := routed
    obtain ⟨msg, eq⟩ := handleSingleRequest_refused distinct routed refused done
    exact ⟨_, eq⟩
  · obtain ⟨msg, eq⟩ := handleSingleRequest_not_routed distinct routed done
    exact ⟨_, eq⟩

/-- **A notification never gets past its validator.** -/
theorem handleSingleNotify_throws (noId : members.lookup (ascii "id") = none) :
    server.handleSingleNotify (.object members) =
      Exec.raise (.exception "missing at least one filed") := by
  have invalid : validateNotify (.object members) =
      .error (.exception "missing at least one filed") := by
    simp only [validateNotify, validateMembers, findValue_missing noId]
    rfl
  simp [RpcServer.handleSingleNotify, invalid]

theorem dispatch_call {id : Value} (found : members.lookup (ascii "id") = some id)
    (done : RpcDoneCallback) :
    server.dispatch (.object members) done = server.handleSingleRequest (.object members) done := by
  simp only [RpcServer.dispatch, isNotify_object, found, Exec.monadLift_eq, Exec.ofExcept_ok,
    Exec.pure_bind, Option.isNone_some, Bool.false_eq_true, if_false]

theorem dispatch_notify (noId : members.lookup (ascii "id") = none) (done : RpcDoneCallback) :
    server.dispatch (.object members) done =
      Exec.raise (.exception "missing at least one filed") := by
  simp only [RpcServer.dispatch, isNotify_object, noId, Exec.monadLift_eq, Exec.ofExcept_ok,
    Exec.pure_bind, Option.isNone_none, if_true]
  exact handleSingleNotify_throws noId

theorem handleRequest_ok {json : Bytes} {v : Value} (parsed : parse json = .ok v)
    (done : RpcDoneCallback) : server.handleRequest json done = server.dispatch v done := by
  simp only [RpcServer.handleRequest, parsed]

/-! ## Elements of a batch -/

/-- The value is a request that dispatch brings as far as a registered service. -/
def RoutedRequest (server : RpcServer κ ν) (v : Value) : Prop :=
  ∃ members service name, v = .object members ∧ Routed server members service name

/-- The value is a request that dispatch hands to a procedure. -/
def AcceptedRequest (server : RpcServer κ ν) (v : Value) : Prop :=
  ∃ members p, v = .object members ∧ Accepted server members p

theorem Routed.hasId {service : RpcService κ ν} {name : Bytes}
    (routed : Routed server members service name) :
    ∃ id, members.lookup (ascii "id") = some id := by
  obtain ⟨id, found, -⟩ := routed.id
  exact ⟨id, found⟩

theorem Accepted.hasId {p : Procedure κ} (accepted : Accepted server members p) :
    ∃ id, members.lookup (ascii "id") = some id := by
  obtain ⟨service, name, routed, -⟩ := accepted.routed
  exact routed.hasId

theorem handleElement_call {id : Value} (found : members.lookup (ascii "id") = some id) :
    server.handleElement (.object members) =
      ⟨.copyResponses :: ((server.handleSingleRequest (.object members)
          RpcServer.addResponse).events ++ [.dropResponses]),
        (server.handleSingleRequest (.object members) RpcServer.addResponse).result⟩ := by
  simp only [RpcServer.handleElement, isNotify_object, found, Exec.monadLift_eq, Exec.ofExcept_ok,
    Exec.pure_bind, Option.isNone_some, Bool.false_eq_true, if_false]
  rfl

theorem handleElement_notify (noId : members.lookup (ascii "id") = none) :
    server.handleElement (.object members) =
      Exec.raise (.exception "missing at least one filed") := by
  simp only [RpcServer.handleElement, isNotify_object, noId, Exec.monadLift_eq, Exec.ofExcept_ok,
    Exec.pure_bind, Option.isNone_none, if_true]
  exact handleSingleNotify_throws noId

theorem handleElement_other {v : Value} (other : ¬ ∃ members, v = .object members) :
    server.handleElement v = Exec.raise (.exception "request json is bad") := by
  cases v with
  | object members => exact absurd ⟨members, rfl⟩ other
  | null | bool _ | int32 _ | int64 _ | double _ | string _ | array _ => rfl

/-- An accepted element calls its procedure while a copy of the responses is held. -/
theorem handleElement_accepted (distinct : (members.map Prod.fst).Nodup) {p : Procedure κ}
    (accepted : Accepted server members p) :
    server.handleElement (.object members) =
      ⟨[.copyResponses, .callReturn p.callback (.object members) RpcServer.addResponse,
        .dropResponses], .ok ()⟩ := by
  obtain ⟨id, found⟩ := accepted.hasId
  rw [handleElement_call found, handleSingleRequest_accepted distinct accepted]
  rfl

/-- Any other element throws, and calls nothing. -/
theorem handleElement_not_accepted {v : Value} (keyed : v.WellKeyed)
    (refused : ¬ AcceptedRequest server v) :
    ∃ t, server.handleElement v = Exec.raise t ∨
      server.handleElement v = ⟨[.copyResponses, .dropResponses], .error t⟩ := by
  by_cases object : ∃ members, v = .object members
  · obtain ⟨members, rfl⟩ := object
    cases found : members.lookup (ascii "id") with
    | none => exact ⟨_, .inl (handleElement_notify found)⟩
    | some id =>
        have none : ¬ ∃ p, Accepted server members p := fun ⟨p, accepted⟩ =>
          refused ⟨members, p, rfl, accepted⟩
        obtain ⟨t, eq⟩ :=
          handleSingleRequest_not_accepted keyed.distinct none RpcServer.addResponse
        refine ⟨t, .inr ?_⟩
        rw [handleElement_call found, eq]
        rfl
  · exact ⟨_, .inl (handleElement_other object)⟩

end Dispatch

end LaliRpc.Zrpc
