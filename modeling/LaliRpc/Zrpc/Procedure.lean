/-
# Zrpc.Procedure — registered procedures and their parameter check

`util.h`, `Procedure.h/.cpp` and `RpcService.h/.cpp`. A handler is an opaque
token (`κ` for the return handlers, `ν` for the notify handlers): the framework
only stores it and calls it, and a call is an `Event`.

`validateGeneric` compares sizes and then looks every declared parameter up. For
a procedure whose declared names are distinct that is the same as matching the
declaration exactly (`validateGeneric_iff`): no undeclared member can hide,
because there is no room left for it.
-/
import LaliRpc.Jackson.Value
import LaliRpc.Theory.Exec
import LaliRpc.Theory.Fueled

namespace LaliRpc.Zrpc

open LaliRpc.Jackson LaliRpc.Theory

set_option autoImplicit false

/-! ## `util.h` -/

/-- What calling a done callback does. -/
inductive DoneEffect where
  /-- `sendResponse(conn, response)` -/
  | sendResponse (response : Value)
  /-- `responses.addResponse(response)` of a batch -/
  | addResponse (response : Value)

abbrev RpcDoneCallback := Value → List DoneEffect

/-- The callback handed to the user's method. -/
structure UserDoneCallback where
  request : Value
  callback : RpcDoneCallback

namespace UserDoneCallback

/-- The response built by `operator()`. -/
def response (u : UserDoneCallback) (result : Value) : Except Thrown Value := do
  let response ← (Value.object []).addMember (ascii "jsonrpc") (.string (ascii "2.0"))
  let response ← response.addMember (ascii "id") (← u.request.member (ascii "id"))
  response.addMember (ascii "result") result

/-- `operator()`. -/
def call (u : UserDoneCallback) (result : Value) : Except Thrown (List DoneEffect) := do
  let response ← u.response result
  return u.callback response

/-- The three members of a result response. -/
def resultResponse (id result : Value) : Value :=
  .object [(ascii "jsonrpc", .string (ascii "2.0")), (ascii "id", id), (ascii "result", result)]

/-- A request with an id is answered under that id. -/
theorem response_eq {u : UserDoneCallback} {members : List (Bytes × Value)} {id : Value}
    (shape : u.request = .object members) (found : members.lookup (ascii "id") = some id)
    (result : Value) : u.response result = .ok (resultResponse id result) := by
  have noId : [(ascii "jsonrpc", Value.string (ascii "2.0"))].lookup (ascii "id") = none :=
    lookup_eq_none_iff.mpr (by decide)
  have noResult : ([(ascii "jsonrpc", Value.string (ascii "2.0"))] ++
      [(ascii "id", id)]).lookup (ascii "result") = none :=
    lookup_eq_none_iff.mpr (show _ ∉ [ascii "jsonrpc", ascii "id"] by decide)
  simp only [response, shape, Value.addMember, Value.member, List.lookup_nil, List.nil_append,
    except_ok_bind, found, noId, noResult]
  rfl

end UserDoneCallback

/-- The effects of the dispatch code, in the order they happen: calls of user
handlers, and what happens to the shared responses of a batch. -/
inductive Event (κ ν : Type) where
  | callReturn (callback : κ) (request : Value) (done : RpcDoneCallback)
  | callNotify (callback : ν) (request : Value)
  /-- a local `ThreadSafeBatchResponse` over `done` is constructed -/
  | makeResponses (done : RpcDoneCallback)
  /-- a copy of it is made -/
  | copyResponses
  /-- a copy, or the local itself, is destroyed -/
  | dropResponses

/-! ## `Procedure` -/

structure Param where
  paramName : Bytes
  paramType : ValueType
  deriving DecidableEq, Repr

structure Procedure (Func : Type) where
  callback : Func
  params : List Param

namespace Procedure

variable {Func κ ν : Type}

/-- The loop over an array of parameters. -/
def elementsMatch : List Value → List Param → Bool
  | value :: values, param :: params =>
      if value.getType ≠ param.paramType then false else elementsMatch values params
  | _, _ => true

/-- The loop over the declared parameters of an object. -/
def membersMatch (members : List (Bytes × Value)) : List Param → Bool
  | [] => true
  | temp :: params =>
      match members.lookup temp.paramName with
      | none => false
      | some value => if value.getType ≠ temp.paramType then false else membersMatch members params

def validateGeneric (p : Procedure Func) (request : Value) : Except Thrown Bool := do
  match ← request.findMember (ascii "params") with
  | none => return p.params.isEmpty
  | some params =>
      if params.getSize = 0 ∨ params.getSize ≠ p.params.length then return false
      else
        match params with
        | .array values => return elementsMatch values p.params
        | .object members => return membersMatch members p.params
        | _ => return false

def validateRequest (p : Procedure Func) (request : Value) : Except Thrown Unit :=
  match request.getType with
  | .object | .array => do
      if !(← p.validateGeneric request) then throw (.cstr "params name or type mismatch")
  | _ => throw (.cstr "params type must be object or array")

/-- `Procedure<ProcedureReturnCallback>::invoke`. -/
def invokeReturn (p : Procedure κ) (request : Value) (done : RpcDoneCallback) :
    Exec (Event κ ν) Thrown Unit := do
  p.validateRequest request
  Exec.emit (.callReturn p.callback request done)

/-- `Procedure<ProcedureNotifyCallback>::invoke`. -/
def invokeNotify (p : Procedure ν) (request : Value) : Exec (Event κ ν) Thrown Unit := do
  p.validateRequest request
  Exec.emit (.callNotify p.callback request)

/-! ### What the parameter check accepts -/

/-- The parameters of a request match the declaration exactly. -/
def ParamsMatch (declared : List Param) : Option Value → Prop
  | none => declared = []
  | some (.array values) =>
      values ≠ [] ∧ values.map Value.getType = declared.map Param.paramType
  | some (.object members) =>
      members ≠ [] ∧ (members.map Prod.fst).Perm (declared.map Param.paramName) ∧
        ∀ q ∈ declared, (members.lookup q.paramName).map Value.getType = some q.paramType
  | some _ => False

theorem elementsMatch_iff {values : List Value} {params : List Param}
    (len : values.length = params.length) :
    elementsMatch values params = true ↔
      values.map Value.getType = params.map Param.paramType := by
  induction values generalizing params with
  | nil =>
      obtain rfl : params = [] := List.length_eq_zero_iff.mp len.symm
      simp [elementsMatch]
  | cons value values ih =>
      cases params with
      | nil => cases len
      | cons param params =>
          have rest := ih (Nat.succ.inj len)
          by_cases same : value.getType = param.paramType
          · simp [elementsMatch, same, rest]
          · simp [elementsMatch, same]

theorem membersMatch_iff {members : List (Bytes × Value)} {params : List Param} :
    membersMatch members params = true ↔
      ∀ q ∈ params, (members.lookup q.paramName).map Value.getType = some q.paramType := by
  induction params with
  | nil => simp [membersMatch]
  | cons temp params ih =>
      cases found : members.lookup temp.paramName with
      | none => simp [membersMatch, found]
      | some value =>
          by_cases same : value.getType = temp.paramType
          · simp [membersMatch, found, same, ih]
          · simp [membersMatch, found, same]

/-- Sizes alike and every declared name found: the names are the declared ones. -/
theorem names_perm {members : List (Bytes × Value)} {declared : List Param}
    (distinct : (declared.map Param.paramName).Nodup) (len : members.length = declared.length)
    (all : ∀ q ∈ declared, (members.lookup q.paramName).map Value.getType = some q.paramType) :
    (members.map Prod.fst).Perm (declared.map Param.paramName) := by
  apply perm_of_length_eq distinct
  · intro name mem
    obtain ⟨q, hq, rfl⟩ := List.mem_map.mp mem
    obtain ⟨value, found, -⟩ := Option.map_eq_some_iff.mp (all q hq)
    exact mem_keys_of_lookup found
  · simpa using len

theorem validateGeneric_object (p : Procedure Func) (members : List (Bytes × Value)) :
    ∃ b, p.validateGeneric (.object members) = .ok b := by
  cases h : p.validateGeneric (.object members) with
  | ok b => exact ⟨b, rfl⟩
  | error t =>
      simp only [validateGeneric, Value.findMember_object, except_ok_bind] at h
      split at h
      · cases h
      · split at h
        · cases h
        · split at h <;> cases h

/-- **The parameter check accepts exactly the declared parameters.** -/
theorem validateGeneric_iff {p : Procedure Func} {members : List (Bytes × Value)}
    (distinct : (p.params.map Param.paramName).Nodup) :
    p.validateGeneric (.object members) = .ok true ↔
      ParamsMatch p.params (members.lookup (ascii "params")) := by
  simp only [validateGeneric, Value.findMember_object, except_ok_bind]
  cases members.lookup (ascii "params") with
  | none =>
      show Except.ok p.params.isEmpty = .ok true ↔ p.params = []
      simp
  | some params =>
      cases params with
      | array values =>
          show (if values.length = 0 ∨ values.length ≠ p.params.length then .ok false
            else .ok (elementsMatch values p.params)) = Except.ok true ↔ _
          by_cases len : values.length = p.params.length
          · by_cases empty : values = []
            · simp [ParamsMatch, empty]
            · have positive : ¬ (values.length = 0 ∨ values.length ≠ p.params.length) := by
                rintro (zero | ne)
                · exact empty (List.length_eq_zero_iff.mp zero)
                · exact ne len
              rw [if_neg positive, Except.ok.injEq, elementsMatch_iff len]
              exact ⟨fun same => ⟨empty, same⟩, fun both => both.2⟩
          · rw [if_pos (.inr len)]
            refine iff_of_false (by simp) fun both => len ?_
            simpa using congrArg List.length both.2
      | object inner =>
          show (if inner.length = 0 ∨ inner.length ≠ p.params.length then .ok false
            else .ok (membersMatch inner p.params)) = Except.ok true ↔ _
          by_cases len : inner.length = p.params.length
          · by_cases empty : inner = []
            · simp [ParamsMatch, empty]
            · have positive : ¬ (inner.length = 0 ∨ inner.length ≠ p.params.length) := by
                rintro (zero | ne)
                · exact empty (List.length_eq_zero_iff.mp zero)
                · exact ne len
              rw [if_neg positive, Except.ok.injEq, membersMatch_iff]
              exact ⟨fun all => ⟨empty, names_perm distinct len all, all⟩, fun both => both.2.2⟩
          · rw [if_pos (.inr len)]
            refine iff_of_false (by simp) fun both => len ?_
            simpa using both.2.1.length_eq
      | null | bool _ | int32 _ | int64 _ | double _ | string _ =>
          show (if 1 = 0 ∨ 1 ≠ p.params.length then .ok false else .ok false) =
            Except.ok (ε := Thrown) true ↔ False
          simp

theorem validateRequest_object {p : Procedure Func} {members : List (Bytes × Value)} {b : Bool}
    (checked : p.validateGeneric (.object members) = .ok b) :
    p.validateRequest (.object members) =
      if b then .ok () else .error (.cstr "params name or type mismatch") := by
  show (p.validateGeneric (.object members) >>= _) = _
  rw [checked, except_ok_bind]
  cases b <;> rfl

end Procedure

/-! ## `RpcService` -/

structure RpcService (κ ν : Type) where
  procedureReturnList : Table Bytes (Procedure κ)
  procedureNotifyList : Table Bytes (Procedure ν)

namespace RpcService

variable {κ ν : Type}

def empty : RpcService κ ν := ⟨.empty, .empty⟩

def addProcedureReturn (service : RpcService κ ν) (methodName : Bytes) (p : Procedure κ) :
    Except Thrown (RpcService κ ν) :=
  if (service.procedureReturnList.find methodName).isSome then .error .assertion
  else .ok { service with
    procedureReturnList := service.procedureReturnList.emplace methodName p }

def addProcedureNotify (service : RpcService κ ν) (methodName : Bytes) (p : Procedure ν) :
    Except Thrown (RpcService κ ν) :=
  if (service.procedureNotifyList.find methodName).isSome then .error .assertion
  else .ok { service with
    procedureNotifyList := service.procedureNotifyList.emplace methodName p }

def callProcedureReturn (service : RpcService κ ν) (methodName : Bytes) (request : Value)
    (done : RpcDoneCallback) : Exec (Event κ ν) Thrown Unit :=
  match service.procedureReturnList.find methodName with
  | none => Exec.raise (.cstr "method not found")
  | some p => p.invokeReturn request done

def callProcedureNotify (service : RpcService κ ν) (methodName : Bytes) (request : Value) :
    Exec (Event κ ν) Thrown Unit :=
  match service.procedureNotifyList.find methodName with
  | none => Exec.raise (.cstr "method not found")
  | some p => p.invokeNotify request

/-! ### Registering a list of procedures -/

theorem addProcedureReturns_eq {entries : List (Bytes × Procedure κ)}
    (distinct : (entries.map Prod.fst).Nodup) {service : RpcService κ ν}
    (fresh : ∀ e ∈ entries, service.procedureReturnList.find e.1 = none) :
    entries.foldlM (fun service e => service.addProcedureReturn e.1 e.2) service =
      .ok { service with
        procedureReturnList := service.procedureReturnList.emplaceAll entries } := by
  induction entries generalizing service with
  | nil => rfl
  | cons e entries ih =>
      rw [List.map_cons, List.nodup_cons] at distinct
      have new := fresh e List.mem_cons_self
      rw [List.foldlM_cons, addProcedureReturn, new, if_neg (by simp), except_ok_bind]
      apply ih distinct.2
      intro g hg
      have ne : g.1 ≠ e.1 := fun same => distinct.1 (same ▸ List.mem_map_of_mem hg)
      exact (Table.find_emplace_of_ne ne e.2).trans (fresh g (List.mem_cons_of_mem _ hg))

theorem addProcedureNotifies_eq {entries : List (Bytes × Procedure ν)}
    (distinct : (entries.map Prod.fst).Nodup) {service : RpcService κ ν}
    (fresh : ∀ e ∈ entries, service.procedureNotifyList.find e.1 = none) :
    entries.foldlM (fun service e => service.addProcedureNotify e.1 e.2) service =
      .ok { service with
        procedureNotifyList := service.procedureNotifyList.emplaceAll entries } := by
  induction entries generalizing service with
  | nil => rfl
  | cons e entries ih =>
      rw [List.map_cons, List.nodup_cons] at distinct
      have new := fresh e List.mem_cons_self
      rw [List.foldlM_cons, addProcedureNotify, new, if_neg (by simp), except_ok_bind]
      apply ih distinct.2
      intro g hg
      have ne : g.1 ≠ e.1 := fun same => distinct.1 (same ▸ List.mem_map_of_mem hg)
      exact (Table.find_emplace_of_ne ne e.2).trans (fresh g (List.mem_cons_of_mem _ hg))

end RpcService

end LaliRpc.Zrpc
