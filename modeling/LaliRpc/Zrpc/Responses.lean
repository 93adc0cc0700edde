/-
# Zrpc.Responses — responses and the calls they answer

What the client does with the text of a response: `handleResponse` takes it apart
into elements, and `handleSingleResponse` finds for each the callback under its id
(`findDelivery`), invokes it and then erases the entry. Callbacks are arbitrary
code that may send further calls, so a client is a machine here: `Step` is what the
loop thread can do next, between messages, inside a message and inside a callback.

`Ledger` is what a client is for, by its calls and the responses it was shown
alone: which calls are pending, and which responses answer one. The machine
simulates it (`Tracks`), as long as the ids do not repeat.

The map is a `std::unordered_map`, and its entry is erased through the iterator that was
found before the callback. An insertion that takes the map beyond its maximal load rehashes
it, which invalidates every iterator; `erase` is then undefined, and the machine does not go
on. So a client keeps its books through a run exactly when every call sent from inside a
callback finds room in the map (`pending_calls_iff`).
-/
import LaliRpc.Jackson.Reader
import LaliRpc.Theory.Transition
import LaliRpc.Zrpc.RpcClient
import LaliRpc.Zrpc.RpcServer

namespace LaliRpc.Zrpc.RpcClient

open LaliRpc.Jackson LaliRpc.Theory

set_option autoImplicit false

/-! ## One response -/

/-- The `findValue` of the client, which takes one type. -/
def findValue (value : Value) (key : Bytes) (type : ValueType) : Except Thrown Value := do
  match ← value.findMember key with
  | none => throw (.exception "missing at least one field")
  | some found =>
      throwIf (found.getType ≠ type) (.exception "bad type of at least one field")
      return found

def validateResponse (response : Value) : Except Thrown Unit := do
  throwIf (response.getSize ≠ 3) (.exception "response should have 3 field")
  let id ← findValue response (ascii "id") .int32
  let _id ← id.getInt32
  let version ← findValue response (ascii "jsonrpc") .string
  let versionView ← version.getStringView
  throwIf (versionView ≠ ascii "2.0") (.exception "unkonwn json rpc version")
  match ← response.findMember (ascii "result") with
  | some _ => return ()
  | none =>
      let _error ← findValue response (ascii "error") .object
      return ()

/-- A callback and the arguments it is invoked with. -/
structure Delivery (ρ : Type) where
  id : Int64
  cb : ρ
  response : Value
  isError : Bool
  isTimeout : Bool

section Single

variable {ρ : Type}

/-- `handleSingleResponse` up to the callback: `none` when the id has no entry. -/
def findDelivery (client : RpcClient ρ) (response : Value) :
    Except Thrown (Option (Delivery ρ)) := do
  validateResponse response
  let id ← (← response.member (ascii "id")).getInt32
  match client.callbacks.find id.toInt64 with
  | none => return none
  | some cb =>
      match ← response.findMember (ascii "result") with
      | some result => return some ⟨id.toInt64, cb, result, false, false⟩
      | none =>
          match ← response.findMember (ascii "error") with
          | some error => return some ⟨id.toInt64, cb, error, true, false⟩
          | none => throw .assertion

/-- `handleSingleResponse` behind the callback. -/
def eraseCall (client : RpcClient ρ) (delivery : Delivery ρ) : RpcClient ρ :=
  { client with callbacks := client.callbacks.erase delivery.id }

/-- The elements that `handleResponse` gives to `handleSingleResponse`. -/
def responseElements (json : Bytes) : Except Thrown (List Value) :=
  match parse json with
  | .error .assertion => throw .assertion
  | .error (.error _) => throw (.exception "response parse error")
  | .ok (.object members) => return [.object members]
  | .ok (.array []) => throw (.exception "batcj response is empty")
  | .ok (.array values) => return values
  | .ok _ => throw (.exception "response should be json object or array")

end Single

/-! ### Which responses are valid -/

/-- The members are a response with this id. -/
structure IsResponse (members : List (Bytes × Value)) (id : Int32) : Prop where
  size : members.length = 3
  id : members.lookup (ascii "id") = some (.int32 id)
  version : members.lookup (ascii "jsonrpc") = some (.string (ascii "2.0"))
  outcome : members.lookup (ascii "result") = none →
    ∃ error, members.lookup (ascii "error") = some (.object error)

section Valid

variable {members : List (Bytes × Value)} {response : Value}

theorem findValue_ok_iff {key : Bytes} {type : ValueType} {v : Value} :
    findValue (.object members) key type = .ok v ↔
      members.lookup key = some v ∧ v.getType = type := by
  simp only [findValue, Value.findMember_object, except_ok_bind]
  cases members.lookup key with
  | none => exact iff_of_false (fun h => by cases h) (fun h => by cases h.1)
  | some value =>
      show (throwIf _ _ >>= fun _ => .ok value) = .ok v ↔ _
      rw [except_bind_eq_ok]
      constructor
      · rintro ⟨⟨⟩, checked, same⟩
        obtain rfl : value = v := Except.ok.inj same
        exact ⟨rfl, not_not.mp (throwIf_ok_iff.mp checked)⟩
      · rintro ⟨same, typed⟩
        obtain rfl : value = v := Option.some.inj same
        exact ⟨(), throwIf_ok_iff.mpr (not_not.mpr typed), rfl⟩

/-- Only an object passes. -/
theorem object_of_validateResponse (valid : validateResponse response = .ok ()) :
    ∃ members, response = .object members := by
  obtain ⟨⟨⟩, -, rest⟩ := except_bind_eq_ok.mp valid
  cases response with
  | object members => exact ⟨members, rfl⟩
  | _ => cases rest

/-- The validator accepts exactly the responses. -/
theorem validateResponse_object_iff :
    validateResponse (.object members) = .ok () ↔ ∃ id, IsResponse members id := by
  constructor
  · intro valid
    simp only [validateResponse, except_bind_eq_ok, throwIf_ok_iff, findValue_ok_iff,
      Value.getInt32_ok_iff, Value.getStringView_ok_iff, not_not] at valid
    obtain ⟨-, size, _, ⟨found, -⟩, i, rfl, _, ⟨version, -⟩, _, rfl, -, rfl, outcome⟩ := valid
    refine ⟨i, size, found, version, fun noResult => ?_⟩
    obtain ⟨result, same, outcome⟩ := outcome
    obtain rfl : none = result := noResult ▸ Except.ok.inj same
    obtain ⟨error, found, -⟩ := except_bind_eq_ok.mp outcome
    obtain ⟨found, typed⟩ := findValue_ok_iff.mp found
    obtain ⟨members, rfl⟩ := Value.getType_eq_object_iff.mp typed
    exact ⟨members, found⟩
  · rintro ⟨id, size, found, version, outcome⟩
    simp only [validateResponse, except_bind_eq_ok, throwIf_ok_iff, findValue_ok_iff,
      Value.getInt32_ok_iff, Value.getStringView_ok_iff, not_not]
    refine ⟨(), size, _, ⟨found, rfl⟩, id, rfl, _, ⟨version, rfl⟩, _, rfl, (), rfl,
      members.lookup (ascii "result"), rfl, ?_⟩
    cases result : members.lookup (ascii "result") with
    | some value => rfl
    | none =>
        obtain ⟨error, found⟩ := outcome result
        exact except_bind_eq_ok.mpr ⟨_, findValue_ok_iff.mpr ⟨found, rfl⟩, rfl⟩

theorem findValue_faults (key : Bytes) (type : ValueType) :
    Faults isException (findValue (.object members) key type) := by
  simp only [findValue, Value.findMember_object, except_ok_bind]
  cases members.lookup key with
  | none => exact faults_error _ ⟨_, rfl⟩
  | some value => exact (throwIf_faults ⟨_, rfl⟩).bind fun _ _ => faults_ok _ _

/-- An object fails none of the validator's assertions. -/
theorem validateResponse_faults : Faults isException (validateResponse (.object members)) := by
  refine (throwIf_faults ⟨_, rfl⟩).bind fun _ _ => ?_
  refine (findValue_faults _ _).bind fun id found => ?_
  obtain ⟨i, rfl⟩ := Value.getType_eq_int32_iff.mp (findValue_ok_iff.mp found).2
  refine (findValue_faults _ _).bind fun version found => ?_
  obtain ⟨view, rfl⟩ := Value.getType_eq_string_iff.mp (findValue_ok_iff.mp found).2
  refine (throwIf_faults ⟨_, rfl⟩).bind fun _ _ => ?_
  rw [Value.findMember_object, except_ok_bind]
  cases members.lookup (ascii "result") with
  | some result => exact faults_ok _ _
  | none => exact (findValue_faults _ _).bind fun _ _ => faults_ok _ _

/-- The id of the call that a response answers, `none` when it is not valid. -/
def answersCall (response : Value) : Option Int64 :=
  match validateResponse response, response.member (ascii "id") with
  | .ok _, .ok (.int32 id) => some id.toInt64
  | _, _ => none

theorem answersCall_of_isResponse {id : Int32} (valid : IsResponse members id) :
    answersCall (.object members) = some id.toInt64 := by
  have passes := validateResponse_object_iff.mpr ⟨id, valid⟩
  simp only [answersCall, passes, Value.member, valid.id]

theorem isResponse_of_answersCall {id : Int64} (answers : answersCall response = some id) :
    ∃ members i, response = .object members ∧ IsResponse members i ∧ i.toInt64 = id := by
  cases passes : validateResponse response with
  | error t => simp [answersCall, passes] at answers
  | ok u =>
      obtain ⟨members, rfl⟩ := object_of_validateResponse passes
      obtain ⟨i, valid⟩ := validateResponse_object_iff.mp passes
      rw [answersCall_of_isResponse valid] at answers
      exact ⟨members, i, rfl, valid, Option.some.inj answers⟩

theorem validateResponse_of_answersCall {id : Int64} (answers : answersCall response = some id) :
    validateResponse response = .ok () := by
  obtain ⟨members, i, rfl, valid, -⟩ := isResponse_of_answersCall answers
  exact validateResponse_object_iff.mpr ⟨i, valid⟩

end Valid

/-! ### The delivery -/

/-- A delivery carries what its response says. -/
structure Answers {ρ : Type} (response : Value) (delivery : Delivery ρ) : Prop where
  own : answersCall response = some delivery.id
  result : delivery.isError = false →
    response.findMember (ascii "result") = .ok (some delivery.response)
  error : delivery.isError = true →
    response.findMember (ascii "result") = .ok none ∧
      response.findMember (ascii "error") = .ok (some delivery.response)
  inTime : delivery.isTimeout = false

section Single

variable {ρ : Type} {client : RpcClient ρ} {members : List (Bytes × Value)} {i : Int32}

theorem findDelivery_unknown (valid : IsResponse members i)
    (unknown : client.callbacks.find i.toInt64 = none) :
    client.findDelivery (.object members) = .ok none := by
  have passes := validateResponse_object_iff.mpr ⟨i, valid⟩
  simp only [findDelivery, passes, except_ok_bind, Value.member, valid.id, Value.getInt32, unknown]
  rfl

theorem findDelivery_result (valid : IsResponse members i) {cb : ρ}
    (found : client.callbacks.find i.toInt64 = some cb) {result : Value}
    (given : members.lookup (ascii "result") = some result) :
    client.findDelivery (.object members) = .ok (some ⟨i.toInt64, cb, result, false, false⟩) := by
  have passes := validateResponse_object_iff.mpr ⟨i, valid⟩
  simp only [findDelivery, passes, except_ok_bind, Value.member, valid.id, Value.getInt32, found,
    Value.findMember_object, given]
  rfl

theorem findDelivery_failure (valid : IsResponse members i) {cb : ρ}
    (found : client.callbacks.find i.toInt64 = some cb)
    (noResult : members.lookup (ascii "result") = none) {error : Value}
    (given : members.lookup (ascii "error") = some error) :
    client.findDelivery (.object members) = .ok (some ⟨i.toInt64, cb, error, true, false⟩) := by
  have passes := validateResponse_object_iff.mpr ⟨i, valid⟩
  simp only [findDelivery, passes, except_ok_bind, Value.member, valid.id, Value.getInt32, found,
    Value.findMember_object, noResult, given]
  rfl

/-- What can come of a response: it is refused, its id has no entry, or its
callback is invoked. -/
theorem findDelivery_cases (client : RpcClient ρ) (response : Value) :
    (answersCall response = none ∧ ∃ t, client.findDelivery response = .error t) ∨
      (∃ id, answersCall response = some id ∧ client.callbacks.find id = none ∧
        client.findDelivery response = .ok none) ∨
      ∃ delivery, Answers response delivery ∧
        client.callbacks.find delivery.id = some delivery.cb ∧
        client.findDelivery response = .ok (some delivery) := by
  cases answers : answersCall response with
  | none =>
      refine .inl ⟨rfl, ?_⟩
      cases passes : validateResponse response with
      | error t => exact ⟨t, by rw [findDelivery, passes]; rfl⟩
      | ok u =>
          obtain ⟨members, rfl⟩ := object_of_validateResponse passes
          obtain ⟨i, valid⟩ := validateResponse_object_iff.mp passes
          rw [answersCall_of_isResponse valid] at answers
          cases answers
  | some id =>
      obtain ⟨members, i, rfl, valid, rfl⟩ := isResponse_of_answersCall answers
      refine .inr ?_
      cases found : client.callbacks.find i.toInt64 with
      | none => exact .inl ⟨_, rfl, found, findDelivery_unknown valid found⟩
      | some cb =>
          refine .inr ?_
          cases given : members.lookup (ascii "result") with
          | some result =>
              exact ⟨_, ⟨answers, fun _ => congrArg Except.ok given, fun no => Bool.noConfusion no,
                rfl⟩, found, findDelivery_result valid found given⟩
          | none =>
              obtain ⟨error, given'⟩ := valid.outcome given
              exact ⟨_, ⟨answers, fun no => Bool.noConfusion no,
                fun _ => ⟨congrArg Except.ok given, congrArg Except.ok given'⟩, rfl⟩, found,
                findDelivery_failure valid found given given'⟩

variable {response : Value}

theorem answers_of_findDelivery {delivery : Delivery ρ}
    (found : client.findDelivery response = .ok (some delivery)) :
    Answers response delivery ∧ client.callbacks.find delivery.id = some delivery.cb := by
  rcases findDelivery_cases client response with ⟨-, t, refused⟩ | ⟨id, -, -, unknown⟩ |
    ⟨d, answers, entry, given⟩
  · rw [refused] at found
    cases found
  · rw [unknown] at found
    cases found
  · obtain rfl := Option.some.inj (Except.ok.inj (found.symm.trans given))
    exact ⟨answers, entry⟩

/-- A response that is ignored or refused names no entry. -/
theorem noEntry_of_findDelivery
    (ignored : ∀ delivery, client.findDelivery response ≠ .ok (some delivery)) {id : Int64}
    (answers : answersCall response = some id) : client.callbacks.find id = none := by
  rcases findDelivery_cases client response with ⟨invalid, -⟩ | ⟨id', answers', unknown, -⟩ |
    ⟨d, -, -, given⟩
  · rw [answers] at invalid
    cases invalid
  · obtain rfl := Option.some.inj (answers.symm.trans answers')
    exact unknown
  · exact absurd given (ignored d)

/-- Nor does it fail one behind the validator. -/
theorem findDelivery_faults (client : RpcClient ρ) (members : List (Bytes × Value)) :
    Faults isException (client.findDelivery (.object members)) := by
  intro t thrown
  cases passes : validateResponse (.object members) with
  | error t' =>
      rw [findDelivery, passes] at thrown
      obtain rfl : t' = t := Except.error.inj thrown
      exact validateResponse_faults t' passes
  | ok u =>
      obtain ⟨i, valid⟩ := validateResponse_object_iff.mp passes
      rcases findDelivery_cases client (.object members) with ⟨invalid, -⟩ | ⟨id, -, -, unknown⟩ |
        ⟨d, -, -, given⟩
      · rw [answersCall_of_isResponse valid] at invalid
        cases invalid
      · rw [unknown] at thrown
        cases thrown
      · rw [given] at thrown
        cases thrown

end Single

/-! ## The machine -/

/-- A client and where its loop thread is: in a message with elements to come, and in
the callback of a delivery. The callbacks invoked so far are recorded, each with the
response it was invoked for. -/
structure Session (ρ : Type) where
  client : RpcClient ρ
  rest : List Value
  inside : Option (Delivery ρ)
  /-- `max_load_factor() * bucket_count()` of the map when the iterator was found that is
  held over the callback. -/
  room : Nat
  invoked : List (Value × Delivery ρ)

inductive Action (ρ : Type) where
  | sendCall (call : Value) (cb : ρ)
  /-- `handleResponse` is called. -/
  | receive (json : Bytes)
  /-- `handleSingleResponse` is called for the next element. -/
  | element (response : Value)
  /-- The running callback returns. -/
  | finish

namespace Session

variable {ρ : Type}

/-- `RpcClient()`. -/
def start : Session ρ := ⟨⟨0, .empty⟩, [], none, 0, []⟩

/-- No message is being handled. -/
def Idle (s : Session ρ) : Prop := s.rest = [] ∧ s.inside = none

/-- The map has not been rehashed since the iterator was found: it was not when no
insertion took it beyond its maximal load. -/
def Held (s : Session ρ) : Prop := s.client.callbacks.size ≤ s.room

/-- What the loop thread can do next. `onMessage` catches an `Exception`, and what is
left of the message is dropped. How many buckets the map has is up to the implementation;
its entries are never more than the maximal load. -/
inductive Step : Session ρ → Action ρ → Session ρ → Prop where
  | sendCall {s : Session ρ} {call request : Value} {cb : ρ} {client : RpcClient ρ}
      (running : s.Idle ∨ s.inside.isSome) (sent : s.client.sendCall call cb = .ok (client, request)) :
      Step s (.sendCall call cb) { s with client := client }
  | receive {s : Session ρ} {json : Bytes} {elements : List Value} (idle : s.Idle)
      (taken : responseElements json = .ok elements) :
      Step s (.receive json) { s with rest := elements }
  | refuse {s : Session ρ} {json : Bytes} {msg : String} (idle : s.Idle)
      (refused : responseElements json = .error (.exception msg)) : Step s (.receive json) s
  | deliver {s : Session ρ} {response : Value} {rest : List Value} {delivery : Delivery ρ}
      {room : Nat} (outside : s.inside = none) (next : s.rest = response :: rest)
      (found : s.client.findDelivery response = .ok (some delivery))
      (load : s.client.callbacks.size ≤ room) :
      Step s (.element response)
        { s with rest := rest, inside := some delivery, room := room,
                 invoked := s.invoked ++ [(response, delivery)] }
  | ignore {s : Session ρ} {response : Value} {rest : List Value} (outside : s.inside = none)
      (next : s.rest = response :: rest) (unknown : s.client.findDelivery response = .ok none) :
      Step s (.element response) { s with rest := rest }
  | drop {s : Session ρ} {response : Value} {rest : List Value} {msg : String}
      (outside : s.inside = none) (next : s.rest = response :: rest)
      (refused : s.client.findDelivery response = .error (.exception msg)) :
      Step s (.element response) { s with rest := [] }
  | finish {s : Session ρ} {delivery : Delivery ρ} (inside : s.inside = some delivery)
      (held : s.Held) :
      Step s .finish { s with client := s.client.eraseCall delivery, inside := none }

/-- The machine handles every element that is an object. -/
theorem exists_step_element {s : Session ρ} {members : List (Bytes × Value)} {rest : List Value}
    (outside : s.inside = none) (next : s.rest = .object members :: rest) :
    ∃ s', s.Step (.element (.object members)) s' := by
  cases found : s.client.findDelivery (.object members) with
  | ok delivery =>
      cases delivery with
      | none => exact ⟨_, .ignore outside next found⟩
      | some delivery => exact ⟨_, .deliver outside next found (Nat.le_refl _)⟩
  | error t =>
      obtain ⟨msg, rfl⟩ := findDelivery_faults s.client members t found
      exact ⟨_, .drop outside next found⟩

/-- When the running callback returns, its entry is erased. -/
def Finishes (s : Session ρ) : Prop :=
  ∀ delivery, s.inside = some delivery → ∃ s', s.Step .finish s'

/-- A call sent from inside a callback finds room in the map. -/
def HasRoom (s : Session ρ) : Action ρ → Prop
  | .sendCall _ cb =>
      s.inside.isSome → (s.client.callbacks.assign s.client.id cb).size ≤ s.room
  | .receive _ | .element _ | .finish => True

variable {s s' : Session ρ} {action : Action ρ}

theorem finishes_outside (outside : s.inside = none) : s.Finishes := by
  intro delivery inside
  rw [outside] at inside
  cases inside

theorem finishes_iff_held {delivery : Delivery ρ} (inside : s.inside = some delivery) :
    s.Finishes ↔ s.Held := by
  constructor
  · intro finishes
    obtain ⟨s', taken⟩ := finishes delivery inside
    cases taken with
    | finish _ held => exact held
  · intro held _ _
    exact ⟨_, .finish inside held⟩

theorem callbacks_of_sendCall {client client' : RpcClient ρ} {call request : Value} {cb : ρ}
    (sent : client.sendCall call cb = .ok (client', request)) :
    client'.callbacks = client.callbacks.assign client.id cb := by
  obtain ⟨added, -, result⟩ := except_bind_eq_ok.mp sent
  obtain ⟨rfl, -⟩ := Prod.mk.inj (Except.ok.inj result)
  rfl

/-- With room the iterator stays. -/
theorem finishes_step (finishes : s.Finishes) (room : s.HasRoom action)
    (taken : s.Step action s') : s'.Finishes := by
  cases taken with
  | @sendCall call request cb client running sent =>
      rcases Option.eq_none_or_eq_some s.inside with outside | ⟨delivery, inside⟩
      · exact finishes_outside outside
      · refine (@finishes_iff_held ρ { s with client := client } delivery inside).mpr ?_
        rw [Held, callbacks_of_sendCall sent]
        exact room (Option.isSome_iff_exists.mpr ⟨delivery, inside⟩)
  | receive idle _ => exact finishes_outside idle.2
  | refuse => exact finishes
  | @deliver response rest delivery buckets outside next found load =>
      exact (@finishes_iff_held ρ { s with
        rest := rest, inside := some delivery, room := buckets
        invoked := s.invoked ++ [(response, delivery)] } delivery rfl).mpr load
  | ignore outside => exact finishes_outside outside
  | drop outside => exact finishes_outside outside
  | finish => exact finishes_outside rfl

/-- Without room it is gone. -/
theorem not_finishes_step (full : ¬ s.HasRoom action) (taken : s.Step action s') :
    ¬ s'.Finishes := by
  cases taken with
  | @sendCall call request cb client running sent =>
      have full : ¬ (s.inside.isSome → (s.client.callbacks.assign s.client.id cb).size ≤ s.room) :=
        full
      obtain ⟨isInside, small⟩ := Classical.not_imp.mp full
      obtain ⟨delivery, inside⟩ := Option.isSome_iff_exists.mp isInside
      rw [@finishes_iff_held ρ { s with client := client } delivery inside, Held,
        callbacks_of_sendCall sent]
      exact small
  | receive | refuse | deliver | ignore | drop | finish => exact absurd trivial full

end Session

/-! ## The ledger -/

/-- The calls made, each under its number, and the responses that have answered one. -/
structure Ledger (ρ : Type) where
  issued : List (Int64 × ρ)
  answered : List (Int64 × Value)

namespace Ledger

variable {ρ : Type}

def empty : Ledger ρ := ⟨[], []⟩

/-- The call has been made and its response has not been processed. -/
def Pending (ledger : Ledger ρ) (id : Int64) : Prop :=
  id ∈ ledger.issued.map Prod.fst ∧ id ∉ ledger.answered.map Prod.fst

instance (ledger : Ledger ρ) : DecidablePred ledger.Pending := fun id =>
  inferInstanceAs (Decidable (id ∈ ledger.issued.map Prod.fst ∧ id ∉ ledger.answered.map Prod.fst))

/-- A response answers the pending call whose id it carries, if it is valid. -/
def answer (ledger : Ledger ρ) (response : Value) : Ledger ρ :=
  match answersCall response with
  | none => ledger
  | some id =>
      if ledger.Pending id then { ledger with answered := ledger.answered ++ [(id, response)] }
      else ledger

def record (ledger : Ledger ρ) : Action ρ → Ledger ρ
  | .sendCall _ cb =>
      { ledger with issued := ledger.issued ++ [(Int64.ofNat ledger.issued.length, cb)] }
  | .element response => ledger.answer response
  | .receive _ | .finish => ledger

/-- The ledger of a run. -/
def of (trace : List (Session ρ × Action ρ)) : Ledger ρ := (trace.map Prod.snd).foldl record empty

theorem answer_eq_self {ledger : Ledger ρ} {response : Value}
    (stray : ∀ id, answersCall response = some id → ¬ ledger.Pending id) :
    ledger.answer response = ledger := by
  unfold answer
  split
  · rfl
  · exact if_neg (stray _ ‹_›)

theorem answer_pending {ledger : Ledger ρ} {response : Value} {id : Int64}
    (answers : answersCall response = some id) (pending : ledger.Pending id) :
    ledger.answer response = { ledger with answered := ledger.answered ++ [(id, response)] } := by
  simp only [answer, answers, if_pos pending]

theorem issued_answer (ledger : Ledger ρ) (response : Value) :
    (ledger.answer response).issued = ledger.issued := by
  unfold answer
  split
  · rfl
  · split <;> rfl

/-- Calls are only ever added. -/
theorem issued_record (ledger : Ledger ρ) (action : Action ρ) :
    ledger.issued <+: (ledger.record action).issued := by
  cases action with
  | sendCall call cb => exact List.prefix_append _ _
  | element response =>
      show ledger.issued <+: (ledger.answer response).issued
      rw [issued_answer]
  | receive json => exact List.prefix_rfl
  | finish => exact List.prefix_rfl

theorem of_append (trace trace' : List (Session ρ × Action ρ)) :
    of (trace ++ trace') = (trace'.map Prod.snd).foldl record (of trace) := by
  rw [of, List.map_append, List.foldl_append]
  rfl

theorem issued_append (trace trace' : List (Session ρ × Action ρ)) :
    (of trace).issued <+: (of (trace ++ trace')).issued := by
  rw [of_append]
  induction trace' generalizing trace with
  | nil => exact List.prefix_rfl
  | cons p trace' ih =>
      have rest := ih (trace ++ [p])
      rw [of_append] at rest
      exact (issued_record _ _).trans rest

end Ledger

/-- The client of the session is the one that the ledger calls for. -/
structure Tracks {ρ : Type} (s : Session ρ) (ledger : Ledger ρ) : Prop where
  ids : ledger.issued.map Prod.fst = (List.range ledger.issued.length).map Int64.ofNat
  next : s.client.id = Int64.ofNat ledger.issued.length
  once : (ledger.answered.map Prod.fst).Nodup
  /-- An entry stays while its callback runs. -/
  entries : ∀ id cb, s.client.callbacks.find id = some cb ↔ (id, cb) ∈ ledger.issued ∧
    (id ∉ ledger.answered.map Prod.fst ∨ s.inside.map Delivery.id = some id)
  running : ∀ delivery, s.inside = some delivery → delivery.id ∈ ledger.answered.map Prod.fst
  invoked : s.invoked.map (fun i => (i.2.id, i.1)) = ledger.answered
  own : ∀ i ∈ s.invoked, (i.2.id, i.2.cb) ∈ ledger.issued ∧ Answers i.1 i.2

namespace Tracks

variable {ρ : Type} {s s' : Session ρ} {ledger : Ledger ρ}

theorem start : Tracks (Session.start : Session ρ) Ledger.empty where
  ids := rfl
  next := rfl
  once := List.nodup_nil
  entries id cb := by simp [Session.start, Ledger.empty]
  running _ inside := by cases inside
  invoked := rfl
  own i mem := by cases mem

/-- Ids do not repeat in fewer than 2^63 calls. -/
theorem ofNat_injOn {m n : Nat} (hm : m < 2 ^ 63) (hn : n < 2 ^ 63)
    (same : Int64.ofNat m = Int64.ofNat n) : m = n := by
  have values := congrArg Int64.toInt same
  rw [Int64.toInt_ofNat_of_lt hm, Int64.toInt_ofNat_of_lt hn] at values
  exact Int.ofNat.inj values

theorem distinct (tracks : Tracks s ledger) (few : ledger.issued.length < 2 ^ 63) :
    (ledger.issued.map Prod.fst).Nodup := by
  rw [tracks.ids]
  refine List.nodup_range.map_on fun m hm n hn same => ?_
  rw [List.mem_range] at hm hn
  exact ofNat_injOn (by omega) (by omega) same

theorem fresh (tracks : Tracks s ledger) (few : ledger.issued.length < 2 ^ 63) :
    Int64.ofNat ledger.issued.length ∉ ledger.issued.map Prod.fst := by
  rw [tracks.ids]
  intro mem
  obtain ⟨k, hk, same⟩ := List.mem_map.mp mem
  rw [List.mem_range] at hk
  have := ofNat_injOn (by omega) few same
  omega

theorem issued_of_answered (tracks : Tracks s ledger) {id : Int64}
    (answered : id ∈ ledger.answered.map Prod.fst) : id ∈ ledger.issued.map Prod.fst := by
  rw [← tracks.invoked, List.map_map] at answered
  obtain ⟨i, mem, rfl⟩ := List.mem_map.mp answered
  exact List.mem_map.mpr ⟨_, (tracks.own i mem).1, rfl⟩

/-- Outside a callback the entries are the pending calls. -/
theorem pending_iff (tracks : Tracks s ledger) (outside : s.inside = none) {id : Int64} :
    (∃ cb, s.client.callbacks.find id = some cb) ↔ ledger.Pending id := by
  constructor
  · rintro ⟨cb, found⟩
    obtain ⟨issued, state⟩ := (tracks.entries id cb).mp found
    rw [outside] at state
    exact ⟨List.mem_map.mpr ⟨_, issued, rfl⟩, state.resolve_right nofun⟩
  · rintro ⟨issued, unanswered⟩
    obtain ⟨⟨_, cb⟩, mem, rfl⟩ := List.mem_map.mp issued
    exact ⟨cb, (tracks.entries _ cb).mpr ⟨mem, .inl unanswered⟩⟩

theorem sendCall (tracks : Tracks s ledger) (few : ledger.issued.length < 2 ^ 63)
    {call request : Value} {cb : ρ} {client : RpcClient ρ}
    (sent : s.client.sendCall call cb = .ok (client, request)) :
    Tracks { s with client := client } (ledger.record (.sendCall call cb)) := by
  obtain ⟨added, -, result⟩ := except_bind_eq_ok.mp sent
  obtain ⟨rfl, -⟩ := Prod.mk.inj (Except.ok.inj result)
  have new := tracks.fresh few
  have length : (ledger.record (.sendCall call cb)).issued.length = ledger.issued.length + 1 :=
    List.length_append
  refine ⟨?_, ?_, tracks.once, fun id cb' => ?_, tracks.running, tracks.invoked, fun i mem => ?_⟩
  · rw [length, List.range_succ, List.map_append, ← tracks.ids]
    exact List.map_append
  · show s.client.id + 1 = _
    rw [length, Int64.ofNat_add, tracks.next]
    rfl
  · show (s.client.callbacks.assign s.client.id cb).find id = some cb' ↔
      (id, cb') ∈ ledger.issued ++ [(Int64.ofNat ledger.issued.length, cb)] ∧ _
    rw [List.mem_append, List.mem_singleton, tracks.next]
    by_cases same : id = Int64.ofNat ledger.issued.length
    · subst same
      have unissued : (Int64.ofNat ledger.issued.length, cb') ∉ ledger.issued := fun mem =>
        new (List.mem_map.mpr ⟨_, mem, rfl⟩)
      have unanswered : Int64.ofNat ledger.issued.length ∉ ledger.answered.map Prod.fst :=
        fun mem => new (tracks.issued_of_answered mem)
      rw [Table.find_assign_self]
      constructor
      · rintro ⟨⟩
        exact ⟨.inr rfl, .inl unanswered⟩
      · rintro ⟨old | here, -⟩
        · exact absurd old unissued
        · rw [(Prod.mk.inj here).2]
    · have other : (id, cb') ≠ (Int64.ofNat ledger.issued.length, cb) := fun eq =>
        same (Prod.mk.inj eq).1
      rw [Table.find_assign_of_ne same, tracks.entries, or_iff_left other]
      rfl
  · obtain ⟨issued, answers⟩ := tracks.own i mem
    exact ⟨List.mem_append_left _ issued, answers⟩

/-- The delivered response answers its call, and the entry stays for the while. -/
theorem deliver (tracks : Tracks s ledger) (outside : s.inside = none) {response : Value}
    {delivery : Delivery ρ} (answers : Answers response delivery)
    (found : s.client.callbacks.find delivery.id = some delivery.cb) (rest : List Value)
    (room : Nat) :
    Tracks { s with rest := rest, inside := some delivery, room := room,
                    invoked := s.invoked ++ [(response, delivery)] }
      (ledger.answer response) := by
  have pending := (tracks.pending_iff outside).mp ⟨_, found⟩
  obtain ⟨issued, -⟩ := (tracks.entries _ _).mp found
  rw [Ledger.answer_pending answers.own pending]
  refine ⟨tracks.ids, tracks.next, ?_, fun id cb => ?_, ?_, ?_, fun i mem => ?_⟩
  · rw [List.map_append, List.map_singleton]
    exact List.nodup_append.mpr ⟨tracks.once, List.nodup_singleton _, fun a ha b hb => by
      rintro rfl
      have here : a = delivery.id := List.mem_singleton.mp hb
      exact pending.2 (here ▸ ha)⟩
  · show s.client.callbacks.find id = some cb ↔ (id, cb) ∈ ledger.issued ∧
      (id ∉ (ledger.answered ++ [(delivery.id, response)]).map Prod.fst ∨ _)
    rw [tracks.entries, outside, List.map_append, List.mem_append, List.map_singleton,
      List.mem_singleton]
    by_cases same : id = delivery.id
    · subst same
      simp [pending.2]
    · simp [same, Ne.symm same]
  · rintro d ⟨⟩
    rw [List.map_append]
    exact List.mem_append_right _ (List.mem_singleton_self _)
  · show (s.invoked ++ [(response, delivery)]).map _ = _
    rw [List.map_append, tracks.invoked]
    rfl
  · rcases List.mem_append.mp mem with old | new
    · exact tracks.own i old
    · rw [List.mem_singleton.mp new]
      exact ⟨issued, answers⟩

/-- Taking elements off the message changes nothing else. -/
theorem setRest (tracks : Tracks s ledger) (rest : List Value) :
    Tracks { s with rest := rest } ledger :=
  ⟨tracks.ids, tracks.next, tracks.once, tracks.entries, tracks.running, tracks.invoked, tracks.own⟩

theorem finish (tracks : Tracks s ledger) {delivery : Delivery ρ}
    (inside : s.inside = some delivery) :
    Tracks { s with client := s.client.eraseCall delivery, inside := none } ledger := by
  refine ⟨tracks.ids, tracks.next, tracks.once, fun id cb => ?_, nofun, tracks.invoked, tracks.own⟩
  show (s.client.callbacks.erase delivery.id).find id = some cb ↔ _
  by_cases same : id = delivery.id
  · subst same
    have answered := tracks.running delivery inside
    rw [Table.find_erase_self]
    exact iff_of_false nofun fun h => h.2.elim (fun un => un answered) nofun
  · rw [Table.find_erase_of_ne same, tracks.entries, inside]
    simp [Ne.symm same]

/-- A response that names no entry answers nothing. -/
theorem answer_ignored (tracks : Tracks s ledger) (outside : s.inside = none) {response : Value}
    (ignored : ∀ delivery, s.client.findDelivery response ≠ .ok (some delivery)) :
    ledger.answer response = ledger := by
  refine Ledger.answer_eq_self fun id answers pending => ?_
  obtain ⟨cb, found⟩ := (tracks.pending_iff outside).mpr pending
  rw [noEntry_of_findDelivery ignored answers] at found
  cases found

/-- Every step keeps the ledger. -/
theorem step {action : Action ρ} (tracks : Tracks s ledger)
    (few : ledger.issued.length < 2 ^ 63) (taken : s.Step action s') :
    Tracks s' (ledger.record action) := by
  cases taken with
  | sendCall running sent => exact tracks.sendCall few sent
  | receive idle taken => exact tracks.setRest _
  | refuse idle refused => exact tracks
  | deliver outside next found load =>
      obtain ⟨answers, entry⟩ := answers_of_findDelivery found
      exact tracks.deliver outside answers entry _ _
  | @ignore response rest outside next unknown =>
      have same : ledger.record (.element response) = ledger :=
        tracks.answer_ignored outside fun d found => by
          rw [unknown] at found
          cases found
      rw [same]
      exact tracks.setRest _
  | @drop response rest msg outside next refused =>
      have same : ledger.record (.element response) = ledger :=
        tracks.answer_ignored outside fun d found => by
          rw [refused] at found
          cases found
      rw [same]
      exact tracks.setRest _
  | finish inside held => exact tracks.finish inside

end Tracks

section Runs

variable {ρ : Type} {trace : List (Session ρ × Action ρ)} {t : Session ρ}

/-- **The client of a run keeps the ledger of the run.** -/
theorem tracks_of_run (run : Run Session.Step Session.start trace t)
    (few : (Ledger.of trace).issued.length < 2 ^ 63) : Tracks t (Ledger.of trace) := by
  have kept := run.simulates Ledger.record
    (R := fun s ledger => ledger.issued.length < 2 ^ 63 → Tracks s ledger) (a := Ledger.empty)
    (fun s ledger action s' tracks taken few =>
      have few' := Nat.lt_of_le_of_lt (ledger.issued_record action).length_le few
      (tracks few').step few' taken)
    fun _ => Tracks.start
  exact kept few

/-- The books of a client, against the ledger of its calls and responses. -/
structure Bookkeeping (ledger : Ledger ρ) (t : Session ρ) : Prop where
  /-- outside a callback, the entries are exactly the pending calls -/
  pending : t.inside = none → ∀ id, id ∈ t.client.callbacks.keys ↔ ledger.Pending id
  /-- no call's callback is invoked twice, and no two calls share an id -/
  once : (t.invoked.map fun i => i.2.id).Nodup
  distinct : (ledger.issued.map Prod.fst).Nodup
  /-- a callback is invoked for a valid response to its own call -/
  own : ∀ i ∈ t.invoked, validateResponse i.1 = .ok () ∧ answersCall i.1 = some i.2.id ∧
    (i.2.id, i.2.cb) ∈ ledger.issued
  /-- and told of an error exactly when there is one and no result -/
  isError : ∀ i ∈ t.invoked, i.2.isError = true ↔
    i.1.findMember (ascii "result") = .ok none ∧
      ∃ error, i.1.findMember (ascii "error") = .ok (some error)
  /-- a response that is not valid or names no pending call leaves no trace -/
  ignored : ∀ response t', t.Step (.element response) t' →
    (∀ id, answersCall response = some id → ¬ ledger.Pending id) →
    t'.client = t.client ∧ t'.invoked = t.invoked

theorem Answers.isError_iff {response : Value} {delivery : Delivery ρ}
    (answers : Answers response delivery) : delivery.isError = true ↔
      response.findMember (ascii "result") = .ok none ∧
        ∃ error, response.findMember (ascii "error") = .ok (some error) := by
  constructor
  · intro error
    obtain ⟨noResult, given⟩ := answers.error error
    exact ⟨noResult, _, given⟩
  · rintro ⟨noResult, -⟩
    by_contra success
    rw [answers.result (Bool.not_eq_true _ ▸ success)] at noResult
    cases noResult

theorem bookkeeping_of_run (run : Run Session.Step Session.start trace t)
    (few : (Ledger.of trace).issued.length < 2 ^ 63) : Bookkeeping (Ledger.of trace) t := by
  have tracks := tracks_of_run run few
  refine ⟨fun outside id => ?_, ?_, tracks.distinct few, fun i mem => ?_, fun i mem => ?_, ?_⟩
  · rw [Table.mem_keys_iff]
    exact tracks.pending_iff outside
  · have once := tracks.once
    rw [← tracks.invoked, List.map_map] at once
    exact once
  · obtain ⟨issued, answers⟩ := tracks.own i mem
    exact ⟨validateResponse_of_answersCall answers.own, answers.own, issued⟩
  · exact (tracks.own i mem).2.isError_iff
  · intro response t' taken stray
    cases taken with
    | deliver outside next found load =>
        obtain ⟨answers, entry⟩ := answers_of_findDelivery found
        exact absurd ((tracks.pending_iff outside).mp ⟨_, entry⟩) (stray _ answers.own)
    | ignore outside next unknown => exact ⟨rfl, rfl⟩
    | drop outside next refused => exact ⟨rfl, rfl⟩

/-- **The pending calls of a client are exactly those issued and not answered, and each is
answered once, through its own callback, and erased behind it**, exactly in the runs in which
every call sent from inside a callback finds room in the map. -/
theorem pending_calls_iff (run : Run Session.Step Session.start trace t)
    (few : (Ledger.of trace).issued.length < 2 ^ 63) :
    Bookkeeping (Ledger.of trace) t ∧ Run.Throughout Session.Finishes trace t ↔
      ∀ p ∈ trace, p.1.HasRoom p.2 := by
  have exactly : Run.Throughout Session.Finishes trace t ↔ ∀ p ∈ trace, p.1.HasRoom p.2 :=
    run.invariant_iff (J := fun _ => True) (fun _ _ _ _ _ => trivial)
      (fun _ _ _ _ finishes room taken => Session.finishes_step finishes room taken)
      (fun _ _ _ _ _ full taken => Session.not_finishes_step full taken) trivial
      (Session.finishes_outside rfl)
  rw [exactly]
  exact and_iff_right (bookkeeping_of_run run few)

/-! ### A call answered twice -/

def answerText : Bytes :=
  ascii "[\x7b\"id\":0,\"jsonrpc\":\"2.0\",\"result\":3\x7d,\x7b\"id\":0,\"jsonrpc\":\"2.0\",\"result\":4\x7d]"

def answerTo (id : Int32) (result : Value) : Value :=
  .object [(ascii "id", .int32 id), (ascii "jsonrpc", .string (ascii "2.0")), (ascii "result", result)]

def answer (result : Value) : Value := answerTo 0 result

def threeDelivery : Delivery Nat := ⟨0, 10, .int32 3, false, false⟩

/-- One call, and a batch that answers it twice; the callback sends another call, for which
the map has a bucket. -/
theorem answered_twice : ∃ (trace : List (Session Nat × Action Nat)) (t : Session Nat),
    Run Session.Step Session.start trace t ∧
      t.invoked = [(answer (.int32 3), threeDelivery)] ∧ t.client.callbacks.keys = [1] ∧
      Bookkeeping (Ledger.of trace) t ∧ Run.Throughout Session.Finishes trace t := by
  have taken : responseElements answerText = .ok [answer (.int32 3), answer (.int32 4)] := by
    decide +kernel
  have run := Run.cons
      (.sendCall (.inl ⟨rfl, rfl⟩) rfl : Session.start.Step (.sendCall (.object []) 10) _) <|
    .cons (.receive ⟨rfl, rfl⟩ taken) <|
    .cons (.deliver rfl rfl (rfl : _ = Except.ok (some threeDelivery))
      (by decide : _ ≤ 13)) <|
    .cons (.sendCall (.inr rfl) rfl : Session.Step _ (.sendCall (.object []) 20) _) <|
    .cons (.finish rfl (by decide : _ ≤ 13)) <|
    .cons (.ignore rfl rfl rfl) <| .nil _
  refine ⟨_, _, run, rfl, rfl, (pending_calls_iff run (by decide)).mpr ?_⟩
  simp only [List.forall_mem_cons]
  exact ⟨nofun, trivial, trivial, fun _ => by decide, trivial, trivial, nofun⟩

/-! ### A call sent without room -/

/-- After n calls with these callbacks. -/
def called (cb : Nat → ρ) : Nat → Session ρ
  | 0 => .start
  | n + 1 =>
      let before := called cb n
      { before with
        client := ⟨before.client.id + 1, before.client.callbacks.assign before.client.id (cb n)⟩ }

theorem called_idle (cb : Nat → ρ) (n : Nat) : (called cb n).Idle := by
  induction n with
  | zero => exact ⟨rfl, rfl⟩
  | succ n ih => exact ih

theorem called_step (cb : Nat → ρ) (n : Nat) :
    (called cb n).Step (.sendCall (.object []) (cb n)) (called cb (n + 1)) :=
  .sendCall (.inl (called_idle cb n)) rfl

/-- A client can make any number of calls. -/
theorem run_called (cb : Nat → ρ) (n : Nat) : ∃ trace,
    Run Session.Step Session.start trace (called cb n) ∧
      Ledger.of trace = ⟨(List.range n).map fun k => (Int64.ofNat k, cb k), []⟩ := by
  induction n with
  | zero => exact ⟨[], .nil _, rfl⟩
  | succ n ih =>
      obtain ⟨trace, run, ledger⟩ := ih
      refine ⟨_, run.append (.cons (called_step cb n) (.nil _)), ?_⟩
      rw [Ledger.of_append, ledger, List.range_succ]
      simp [Ledger.record]

/-- In the callback of the first of thirteen calls, when it has sent another. -/
def overfull : Session Nat :=
  { called (fun k => k) 14 with
    inside := some ⟨0, 0, .int32 3, false, false⟩
    room := 13
    invoked := [(answer (.int32 3), ⟨0, 0, .int32 3, false, false⟩)] }

/-- Thirteen calls are as many as thirteen buckets are for. The fourteenth rehashes the map,
and the entry of the running callback can no longer be erased through its iterator. -/
theorem rehashed_inside_callback : ∃ trace : List (Session Nat × Action Nat),
    Run Session.Step Session.start trace overfull ∧ (Ledger.of trace).issued.length = 14 ∧
      (∀ t, ¬ overfull.Step .finish t) ∧
      ¬ (Bookkeeping (Ledger.of trace) overfull ∧
        Run.Throughout Session.Finishes trace overfull) := by
  obtain ⟨before, run, ledger⟩ := run_called (fun k => k) 13
  have taken : responseElements (ascii "\x7b\"id\":0,\"jsonrpc\":\"2.0\",\"result\":3\x7d") =
      .ok [answer (.int32 3)] := by
    decide +kernel
  have found : (called (fun k => k) 13).client.findDelivery (answer (.int32 3)) =
      .ok (some ⟨0, 0, .int32 3, false, false⟩) := rfl
  have later : Run Session.Step (called (fun k => k) 13) _ overfull :=
    .cons (.receive (called_idle _ 13) taken) <|
      .cons (.deliver rfl rfl found (by decide : _ ≤ 13)) <|
        .cons (.sendCall (.inr rfl) rfl : Session.Step _ (.sendCall (.object []) 13) _) <| .nil _
  have unheld : ¬ overfull.Held := by
    show ¬ (called (fun k => k) 14).client.callbacks.size ≤ 13
    decide
  refine ⟨_, run.append later, ?_, fun t taken => ?_, fun kept => ?_⟩
  · simp [Ledger.of_append, Ledger.record, Ledger.issued_answer, ledger]
  · exact unheld ((Session.finishes_iff_held rfl).mp fun _ _ => ⟨t, taken⟩)
  · exact unheld ((Session.finishes_iff_held rfl).mp kept.2.2)

end Runs

end LaliRpc.Zrpc.RpcClient
