/-
# Zrpc.HandleResponse — a response text, from its elements to the callbacks

`RpcClient::handleResponse` as one computation: it gives the elements of the text
one after another to `handleSingleResponse`, and the first fault ends the loop.
The client left, the deliveries made and the fault are kept side by side, as a
throw takes none of them back. A callback is foreign code; what it does to the
client is the parameter `react`.

Two things are read off. What a peer can trip with a text is the parser's own
assertion, and the accessors of the validator on an element that is an array of
three, which passes its test of the size (`handleResponse_safe_iff`). And an
element is handled only if all in front of it are valid, so one that is not takes
the deliveries behind it with it (`delivered_in_order`).
-/
import LaliRpc.Zrpc.Responses

namespace LaliRpc.Zrpc.RpcClient

open LaliRpc.Jackson LaliRpc.Theory

set_option autoImplicit false

section Handling

variable {ρ : Type} (react : RpcClient ρ → Delivery ρ → RpcClient ρ)

/-- The callback leaves the iterator valid through which its entry is erased. -/
def handleSingleResponse (client : RpcClient ρ) (response : Value) :
    Ended (RpcClient ρ) (Delivery ρ) Thrown :=
  match client.findDelivery response with
  | .error t => ⟨client, [], some t⟩
  | .ok none => ⟨client, [], none⟩
  | .ok (some delivery) => ⟨(react client delivery).eraseCall delivery, [delivery], none⟩

/-- The loop of `handleResponse`. -/
def handleElements (client : RpcClient ρ) : List Value → Ended (RpcClient ρ) (Delivery ρ) Thrown
  | [] => ⟨client, [], none⟩
  | response :: rest =>
      let first := handleSingleResponse react client response
      match first.thrown with
      | some _ => first
      | none => (handleElements first.state rest).after first.events

def handleResponse (client : RpcClient ρ) (json : Bytes) :
    Ended (RpcClient ρ) (Delivery ρ) Thrown :=
  match responseElements json with
  | .error t => ⟨client, [], some t⟩
  | .ok elements => handleElements react client elements

end Handling

/-! ## What stops the loop -/

section Faults

variable {ρ : Type} {react : RpcClient ρ → Delivery ρ → RpcClient ρ} {client : RpcClient ρ}
  {response : Value} {t : Thrown}

/-- An array of three passes the test of the size. -/
theorem validateResponse_triple {values : List Value} (three : values.length = 3) :
    validateResponse (.array values) = .error .assertion := by
  have sized : throwIf ((Value.array values).getSize ≠ 3)
      (.exception "response should have 3 field") = .ok () := by
    rw [throwIf_ok_iff]
    exact not_not_intro three
  rw [validateResponse, sized]
  rfl

/-- Nothing else fails an assertion of the validator. -/
theorem validateResponse_faults_of (other : ∀ values, response = .array values → values.length ≠ 3) :
    Faults isException (validateResponse response) := by
  have refused : response.getSize ≠ 3 → Faults isException (validateResponse response) := by
    intro size t thrown
    rw [validateResponse, throwIf, if_pos size] at thrown
    obtain rfl := Except.error.inj thrown
    exact ⟨_, rfl⟩
  cases response with
  | object members => exact validateResponse_faults
  | array values => exact refused (other values rfl)
  | _ => exact refused (by simp [Value.getSize])

/-- A response is handled without a fault exactly when it is valid. -/
theorem handleSingleResponse_thrown :
    (handleSingleResponse react client response).thrown = none ↔
      validateResponse response = .ok () := by
  unfold handleSingleResponse
  cases passes : validateResponse response with
  | error t =>
      have refused : client.findDelivery response = .error t := by
        rw [findDelivery, passes]
        rfl
      simp [refused]
  | ok u =>
      obtain ⟨members, rfl⟩ := object_of_validateResponse passes
      obtain ⟨i, valid⟩ := validateResponse_object_iff.mp passes
      rcases findDelivery_cases client (.object members) with ⟨invalid, -⟩ | ⟨id, -, -, unknown⟩ |
        ⟨d, -, -, given⟩
      · rw [answersCall_of_isResponse valid] at invalid
        cases invalid
      · simp [unknown]
      · simp [given]

/-- The fault is the validator's. -/
theorem handleSingleResponse_fault (thrown : validateResponse response = .error t) :
    handleSingleResponse react client response = ⟨client, [], some t⟩ := by
  have refused : client.findDelivery response = .error t := by
    rw [findDelivery, thrown]
    rfl
  rw [handleSingleResponse, refused]

theorem handleElements_valid (valid : validateResponse response = .ok ()) (rest : List Value) :
    handleElements react client (response :: rest) =
      (handleElements react (handleSingleResponse react client response).state rest).after
        (handleSingleResponse react client response).events := by
  rw [handleElements, handleSingleResponse_thrown.mpr valid]

theorem handleElements_fault (thrown : validateResponse response = .error t) (rest : List Value) :
    handleElements react client (response :: rest) = ⟨client, [], some t⟩ := by
  rw [handleElements, handleSingleResponse_fault thrown]

end Faults

/-! ## What a peer can trip -/

/-- Behind valid elements there is an array of three. -/
def Trips (values : List Value) : Prop :=
  ∃ before triple after, values = before ++ .array triple :: after ∧ triple.length = 3 ∧
    ∀ v ∈ before, validateResponse v = .ok ()

/-- The parser does not fail its own assertion on the text, and a batch does not trip
the validator. -/
def Safe (json : Bytes) : Prop :=
  parse json ≠ .error .assertion ∧ ∀ values, parse json = .ok (.array values) → ¬ Trips values

section Safety

variable {ρ : Type} {react : RpcClient ρ → Delivery ρ → RpcClient ρ}

theorem trips_cons_iff {v : Value} {rest : List Value} : Trips (v :: rest) ↔
    (∃ triple, v = .array triple ∧ triple.length = 3) ∨
      validateResponse v = .ok () ∧ Trips rest := by
  constructor
  · rintro ⟨_ | ⟨w, before⟩, triple, after, shape, three, valid⟩
    · exact .inl ⟨triple, (List.cons.inj shape).1, three⟩
    · obtain ⟨rfl, rfl⟩ := List.cons.inj shape
      obtain ⟨first, valid⟩ := List.forall_mem_cons.mp valid
      exact .inr ⟨first, before, triple, after, rfl, three, valid⟩
  · rintro (⟨triple, rfl, three⟩ | ⟨first, before, triple, after, rfl, three, valid⟩)
    · exact ⟨[], triple, rest, rfl, three, by simp⟩
    · exact ⟨v :: before, triple, after, rfl, three, List.forall_mem_cons.mpr ⟨first, valid⟩⟩

/-- The loop is left by an assertion exactly when the elements trip it. -/
theorem handleElements_safe_iff (client : RpcClient ρ) (values : List Value) :
    (∀ t, (handleElements react client values).thrown = some t → isException t) ↔
      ¬ Trips values := by
  induction values generalizing client with
  | nil =>
      refine iff_of_true (fun t thrown => ?_) ?_
      · cases thrown
      · rintro ⟨before, triple, after, shape, -⟩
        simp at shape
  | cons v rest ih =>
      rw [trips_cons_iff]
      cases passes : validateResponse v with
      | ok u =>
          have notTriple : ¬ ∃ triple, v = .array triple ∧ triple.length = 3 := by
            rintro ⟨triple, rfl, three⟩
            rw [validateResponse_triple three] at passes
            cases passes
          rw [handleElements_valid passes]
          simp only [Ended.after, ih, notTriple, true_and, false_or]
      | error t =>
          rw [handleElements_fault passes]
          have only : (∀ t', some t = some t' → isException t') ↔ isException t := by
            simp
          rw [only]
          simp only [reduceCtorEq, false_and, or_false]
          constructor
          · rintro ⟨msg, rfl⟩ ⟨triple, rfl, three⟩
            rw [validateResponse_triple three] at passes
            cases passes
          · intro other
            have faults : Faults isException (validateResponse v) :=
              validateResponse_faults_of fun values same three => other ⟨values, same, three⟩
            exact faults t passes

/-- **What a response text can trip**: `handleResponse` returns or throws an
`Exception`, whatever calls are pending, exactly on the safe texts. -/
theorem handleResponse_safe_iff (client : RpcClient ρ) (json : Bytes) :
    (∀ t, (handleResponse react client json).thrown = some t → isException t) ↔ Safe json := by
  have raised : ∀ msg, ∀ t : Thrown, some (Thrown.exception msg) = some t → isException t := by
    rintro msg t ⟨⟩
    exact ⟨msg, rfl⟩
  unfold handleResponse responseElements Safe
  cases read : parse json with
  | error fault =>
      cases fault with
      | assertion =>
          refine iff_of_false (fun all => ?_) fun safe => safe.1 rfl
          obtain ⟨msg, same⟩ := all .assertion rfl
          cases same
      | error e => exact iff_of_true (raised _) ⟨nofun, nofun⟩
  | ok v =>
      cases v with
      | object members =>
          have single := @handleElements_safe_iff ρ react client [.object members]
          refine iff_of_true (single.mpr ?_) ⟨nofun, nofun⟩
          rw [trips_cons_iff]
          rintro (⟨triple, same, -⟩ | ⟨-, _ | _, _, _, same, -⟩)
          · cases same
          · cases same
          · cases same
      | array values =>
          cases values with
          | nil =>
              refine iff_of_true (raised _) ⟨nofun, ?_⟩
              rintro values ⟨⟩ ⟨before, triple, after, shape, -⟩
              simp at shape
          | cons first rest =>
              have batch := @handleElements_safe_iff ρ react client (first :: rest)
              constructor
              · intro safe
                refine ⟨nofun, ?_⟩
                rintro values ⟨⟩
                exact batch.mp safe
              · rintro ⟨-, safe⟩
                exact batch.mpr (safe _ rfl)
      | _ => exact iff_of_true (raised _) ⟨nofun, nofun⟩

/-- One call is pending, with the callback 10. -/
def oneCall : RpcClient Nat := ⟨1, Table.empty.assign 0 10⟩

/-- An array of three in a batch, and a name given twice. -/
theorem tripped :
    (handleResponse (fun client _ => client) oneCall (ascii "[[1,2,3]]")).thrown = some .assertion ∧
      (handleResponse (fun client _ => client) oneCall
        (ascii "\x7b\"id\":1,\"id\":2\x7d")).thrown = some .assertion := by
  decide +kernel

end Safety

/-! ## What is delivered -/

/-- The response has this id, valid or not. -/
def HasId (response : Value) (id : Int64) : Prop :=
  ∃ members i, response = .object members ∧ members.lookup (ascii "id") = some (.int32 i) ∧
    i.toInt64 = id

theorem hasId_of_answersCall {response : Value} {id : Int64}
    (answers : answersCall response = some id) : HasId response id := by
  obtain ⟨members, i, rfl, valid, same⟩ := isResponse_of_answersCall answers
  exact ⟨members, i, rfl, valid.id, same⟩

section Delivered

variable {ρ : Type} {react : RpcClient ρ → Delivery ρ → RpcClient ρ} {client : RpcClient ρ}
  {response : Value} {values rest : List Value} {id : Int64} {cb : ρ} {d : Delivery ρ}

/-- The client at a delivery that is made while the elements are handled. -/
inductive Reached (react : RpcClient ρ → Delivery ρ → RpcClient ρ) :
    RpcClient ρ → List Value → RpcClient ρ → Delivery ρ → Prop
  | here {client : RpcClient ρ} {response : Value} {rest : List Value} {d : Delivery ρ} :
      client.findDelivery response = .ok (some d) →
      Reached react client (response :: rest) client d
  | later {client c : RpcClient ρ} {response : Value} {rest : List Value} {d : Delivery ρ} :
      validateResponse response = .ok () →
      Reached react (handleSingleResponse react client response).state rest c d →
      Reached react client (response :: rest) c d

/-- None of the callbacks invoked touches the entry under this id. The calls they send
get ids of their own. -/
def Keeps (react : RpcClient ρ → Delivery ρ → RpcClient ρ) (client : RpcClient ρ)
    (values : List Value) (id : Int64) : Prop :=
  ∀ c d, Reached react client values c d → (react c d).callbacks.find id = c.callbacks.find id

theorem keeps_rest (keeps : Keeps react client (response :: rest) id)
    (valid : validateResponse response = .ok ()) :
    Keeps react (handleSingleResponse react client response).state rest id :=
  fun c d reached => keeps c d (.later valid reached)

/-- What is delivered in front of a fault answers an element in front of it. -/
theorem answers_of_mem_events {t : Thrown} (fails : validateResponse response = .error t)
    (mem : d ∈ (handleElements react client (values ++ response :: rest)).events) :
    ∃ v ∈ values, Answers v d := by
  induction values generalizing client with
  | nil =>
      rw [List.nil_append, handleElements_fault fails] at mem
      cases mem
  | cons v values ih =>
      rw [List.cons_append] at mem
      cases passes : validateResponse v with
      | error t' =>
          rw [handleElements_fault passes] at mem
          cases mem
      | ok u =>
          rw [handleElements_valid passes] at mem
          rcases List.mem_append.mp mem with first | later
          · unfold handleSingleResponse at first
            split at first
            · cases first
            · cases first
            · rename_i delivery found
              obtain rfl := List.mem_singleton.mp first
              exact ⟨v, List.mem_cons_self, (answers_of_findDelivery found).1⟩
          · obtain ⟨w, mem, answers⟩ := ih later
            exact ⟨w, List.mem_cons_of_mem v mem, answers⟩

/-- An element that does not answer a call changes nothing of it. -/
theorem handleSingleResponse_other (keeps : Keeps react client (response :: rest) id)
    (other : answersCall response ≠ some id) :
    (handleSingleResponse react client response).state.callbacks.find id =
        client.callbacks.find id ∧
      ∀ d ∈ (handleSingleResponse react client response).events, d.id ≠ id := by
  unfold handleSingleResponse
  split
  · exact ⟨rfl, nofun⟩
  · exact ⟨rfl, nofun⟩
  · rename_i delivery found
    have own := (answers_of_findDelivery found).1.own
    have ne : id ≠ delivery.id := fun same => other (same ▸ own)
    refine ⟨(Table.find_erase_of_ne ne _).trans (keeps client delivery (.here found)), fun d mem => ?_⟩
    rw [List.mem_singleton.mp mem]
    exact Ne.symm ne

/-- A call that is not pending is not answered. -/
theorem events_not_pending (keeps : Keeps react client values id)
    (none : client.callbacks.find id = none) :
    ∀ d ∈ (handleElements react client values).events, d.id ≠ id := by
  induction values generalizing client with
  | nil => exact nofun
  | cons v rest ih =>
      cases passes : validateResponse v with
      | error t =>
          rw [handleElements_fault passes]
          exact nofun
      | ok u =>
          have still := keeps_rest keeps passes
          rw [handleElements_valid passes]
          intro d mem
          by_cases answers : answersCall v = some id
          · -- its id has no entry, so the element is ignored
            have ignored : client.findDelivery v = .ok .none := by
              rcases findDelivery_cases client v with ⟨invalid, -⟩ | ⟨_, -, -, unknown⟩ |
                ⟨delivery, own, entry, -⟩
              · rw [answers] at invalid
                cases invalid
              · exact unknown
              · obtain rfl := Option.some.inj (answers.symm.trans own.own)
                rw [none] at entry
                cases entry
            have single : handleSingleResponse react client v = ⟨client, [], .none⟩ := by
              rw [handleSingleResponse, ignored]
            rw [single] at mem still
            exact ih still none d mem
          · obtain ⟨same, others⟩ := handleSingleResponse_other keeps answers
            rcases List.mem_append.mp mem with first | later
            · exact others d first
            · exact ih still (same.trans none) d later

/-- **Behind valid elements a response reaches its call**, once. -/
theorem delivered_once {before after : List Value}
    (keeps : Keeps react client (before ++ response :: after) id)
    (valid : ∀ w ∈ before, validateResponse w = .ok ()) (first : ∀ w ∈ before, ¬ HasId w id)
    (answers : answersCall response = some id) (pending : client.callbacks.find id = some cb) :
    ∃ d, Answers response d ∧ d.cb = cb ∧
      (handleElements react client (before ++ response :: after)).events.filter (·.id == id) = [d] := by
  induction before generalizing client with
  | nil =>
      rcases findDelivery_cases client response with ⟨invalid, -⟩ | ⟨id', own, unknown, -⟩ |
        ⟨d, own, entry, given⟩
      · rw [answers] at invalid
        cases invalid
      · obtain rfl := Option.some.inj (answers.symm.trans own)
        rw [pending] at unknown
        cases unknown
      · obtain rfl := Option.some.inj (answers.symm.trans own.own)
        refine ⟨d, own, Option.some.inj (entry.symm.trans pending), ?_⟩
        have passes := validateResponse_of_answersCall answers
        have still := keeps_rest keeps passes
        have single : handleSingleResponse react client response =
            ⟨(react client d).eraseCall d, [d], none⟩ := by
          rw [handleSingleResponse, given]
        have gone : ((react client d).eraseCall d).callbacks.find d.id = none :=
          Table.find_erase_self _ _
        rw [List.nil_append, handleElements_valid passes, single]
        rw [single] at still
        show List.filter _ (d :: (handleElements react _ after).events) = [d]
        rw [List.filter_cons_of_pos (by simp)]
        congr 1
        rw [List.filter_eq_nil_iff]
        intro e mem
        simpa using events_not_pending still gone e mem
  | cons w before ih =>
      obtain ⟨passes, valid⟩ := List.forall_mem_cons.mp valid
      obtain ⟨ne, first⟩ := List.forall_mem_cons.mp first
      have other : answersCall w ≠ some id := fun same => ne (hasId_of_answersCall same)
      obtain ⟨same, others⟩ := handleSingleResponse_other keeps other
      obtain ⟨d, own, entry, once⟩ := ih (keeps_rest keeps passes) valid first (same.trans pending)
      refine ⟨d, own, entry, ?_⟩
      rw [List.cons_append, handleElements_valid passes]
      show List.filter _ (_ ++ _) = [d]
      rw [List.filter_append, once, List.filter_eq_nil_iff.mpr, List.nil_append]
      intro e mem
      simpa using others e mem

/-- The response, with these elements in front of it in the array, is a valid answer to
the pending call `id`, and the first with this id. -/
structure Due (client : RpcClient ρ) (values before : List Value) (response : Value) (id : Int64)
    (cb : ρ) : Prop where
  place : ∃ after, values = before ++ response :: after
  answers : answersCall response = some id
  pending : client.callbacks.find id = some cb
  first : ∀ w ∈ before, ¬ HasId w id

/-- Every response that is due has invoked the callback of its call exactly once. -/
def DeliveredEach (client : RpcClient ρ) (values : List Value) (events : List (Delivery ρ)) : Prop :=
  ∀ before response id cb, Due client values before response id cb →
    ∃ d, Answers response d ∧ d.cb = cb ∧ events.filter (·.id == id) = [d]

/-- The elements are those of the array; an empty one has none that are handled. -/
theorem events_of_array {json : Bytes} (read : parse json = .ok (.array values)) :
    (handleResponse react client json).events = (handleElements react client values).events := by
  cases values with
  | nil => simp only [handleResponse, responseElements, read]; rfl
  | cons v rest => simp only [handleResponse, responseElements, read]; rfl

/-- **A batch is delivered in order up to its first invalid element**: a response that is
due has invoked the callback of its call exactly once if all elements in front of it are
valid, whatever those behind it are; otherwise its call is not answered. -/
theorem delivered_in_order {json : Bytes} (read : parse json = .ok (.array values))
    (keeps : ∀ id ∈ client.callbacks.keys, Keeps react client values id) {before : List Value}
    (due : Due client values before response id cb) :
    ((∀ w ∈ before, validateResponse w = .ok ()) → ∃ d, Answers response d ∧ d.cb = cb ∧
        (handleResponse react client json).events.filter (·.id == id) = [d]) ∧
      ((∃ w ∈ before, validateResponse w ≠ .ok ()) →
        (handleResponse react client json).events.filter (·.id == id) = []) := by
  rw [events_of_array read]
  obtain ⟨⟨after, rfl⟩, answers, pending, first⟩ := due
  constructor
  · intro valid
    have key : id ∈ client.callbacks.keys := Table.mem_keys_iff.mpr ⟨cb, pending⟩
    exact delivered_once (keeps id key) valid first answers pending
  · rintro ⟨w, mem, refused⟩
    obtain ⟨early, late, rfl⟩ := List.append_of_mem mem
    obtain ⟨t, fails⟩ : ∃ t, validateResponse w = .error t := by
      cases passes : validateResponse w with
      | ok u => exact absurd passes refused
      | error t => exact ⟨t, rfl⟩
    rw [List.filter_eq_nil_iff]
    intro d delivered same
    rw [List.append_assoc, List.cons_append] at delivered
    -- it would have been made for an element in front of `w`
    obtain ⟨v, before, own⟩ := answers_of_mem_events fails delivered
    have same : d.id = id := by simpa using same
    exact first v (List.mem_append_left _ before) (hasId_of_answersCall (same ▸ own.own))

/-- A callback that sends another call. -/
def sendsAnother (client : RpcClient Nat) (_ : Delivery Nat) : RpcClient Nat :=
  ⟨client.id + 1, client.callbacks.assign client.id 20⟩

/-- Three calls are pending. -/
def threeCalls : RpcClient Nat :=
  ⟨3, ((Table.empty.assign 0 10).assign 1 11).assign 2 12⟩

/-- The responses to the second and the first call, no response, and the one to the third. -/
def mixedText : Bytes :=
  ascii ("[\x7b\"id\":1,\"jsonrpc\":\"2.0\",\"result\":5\x7d," ++
    "\x7b\"id\":0,\"jsonrpc\":\"2.0\",\"result\":3\x7d,7," ++
    "\x7b\"id\":2,\"jsonrpc\":\"2.0\",\"result\":4\x7d]")

def mixedBatch : List Value :=
  [answerTo 1 (.int32 5), answerTo 0 (.int32 3), .int32 7, answerTo 2 (.int32 4)]

/-- The calls sent by the callbacks get other ids. -/
theorem mixed_keeps : ∀ id ∈ threeCalls.callbacks.keys, Keeps sendsAnother threeCalls mixedBatch id := by
  have early : ∀ id ∈ threeCalls.callbacks.keys, id ≠ 3 ∧ id ≠ 4 := by
    intro id mem
    have listed : id ∈ [2, 1, 0] := mem
    simp only [List.mem_cons, List.not_mem_nil, or_false] at listed
    rcases listed with rfl | rfl | rfl <;> decide
  intro id mem c d reached
  have next : c.id = 3 ∨ c.id = 4 := by
    cases reached with
    | here found => exact .inl rfl
    | later valid reached =>
        cases reached with
        | here found => exact .inr rfl
        | later valid reached =>
            cases reached with
            | here found => cases found
            | later valid reached => cases valid
  have other : id ≠ c.id := by
    obtain ⟨third, fourth⟩ := early id mem
    rcases next with here | here
    · exact here ▸ third
    · exact here ▸ fourth
  exact Table.find_assign_of_ne other _ _

/-- What stands in front of the element that is no response is delivered, and what stands
behind it is not. -/
theorem mixed_delivered :
    (∃ d, Answers (answerTo 0 (.int32 3)) d ∧ d.cb = 10 ∧
        (handleResponse sendsAnother threeCalls mixedText).events.filter (·.id == 0) = [d]) ∧
      (handleResponse sendsAnother threeCalls mixedText).events.filter (·.id == 2) = [] := by
  have read : parse mixedText = .ok (.array mixedBatch) := by decide +kernel
  have valid : validateResponse (answerTo 1 (.int32 5)) = .ok () := rfl
  have named : ∀ {i : Int32} {v : Value} {id : Int64}, HasId (answerTo i v) id → i.toInt64 = id := by
    rintro i v id ⟨members, j, same, found, rfl⟩
    obtain rfl := Value.object.inj same
    obtain rfl := Value.int32.inj (Option.some.inj found)
    rfl
  have unnamed : ∀ {i : Int32} {id : Int64}, ¬ HasId (.int32 i) id := by
    rintro i id ⟨members, j, same, -⟩
    cases same
  have first : Due threeCalls mixedBatch [answerTo 1 (.int32 5)] (answerTo 0 (.int32 3)) 0 10 := by
    refine ⟨⟨_, rfl⟩, rfl, by decide, ?_⟩
    rw [List.forall_mem_singleton]
    exact fun own => absurd (named own) (by decide)
  have third : Due threeCalls mixedBatch [answerTo 1 (.int32 5), answerTo 0 (.int32 3), .int32 7]
      (answerTo 2 (.int32 4)) 2 12 := by
    refine ⟨⟨_, rfl⟩, rfl, by decide, ?_⟩
    simp only [List.forall_mem_cons]
    exact ⟨fun own => absurd (named own) (by decide), fun own => absurd (named own) (by decide),
      unnamed, fun _ none => absurd none List.not_mem_nil⟩
  constructor
  · refine (delivered_in_order read mixed_keeps first).1 ?_
    rw [List.forall_mem_singleton]
    exact valid
  · refine (delivered_in_order read mixed_keeps third).2 ⟨.int32 7, ?_, ?_⟩
    · exact List.mem_cons_of_mem _ (List.mem_cons_of_mem _ List.mem_cons_self)
    · intro passes
      cases passes

/-- Behind an element that is no response the one that is due is lost. -/
theorem lost_behind_invalid :
    parse (ascii "[1,\x7b\"id\":0,\"jsonrpc\":\"2.0\",\"result\":3\x7d]") =
        .ok (.array [.int32 1, answer (.int32 3)]) ∧
      ¬ DeliveredEach oneCall [.int32 1, answer (.int32 3)]
        (handleResponse (fun client _ => client) oneCall
          (ascii "[1,\x7b\"id\":0,\"jsonrpc\":\"2.0\",\"result\":3\x7d]")).events := by
  refine ⟨by decide +kernel, fun each => ?_⟩
  have due : Due oneCall [.int32 1, answer (.int32 3)] [.int32 1] (answer (.int32 3)) 0 10 := by
    refine ⟨⟨[], rfl⟩, rfl, by decide, ?_⟩
    rintro w mem ⟨members, i, same, -⟩
    rw [List.mem_singleton.mp mem] at same
    cases same
  obtain ⟨d, -, -, once⟩ := each _ _ _ _ due
  have nothing : (handleResponse (fun client _ => client) oneCall
      (ascii "[1,\x7b\"id\":0,\"jsonrpc\":\"2.0\",\"result\":3\x7d]")).events.length = 0 := by
    decide +kernel
  rw [List.eq_nil_of_length_eq_zero nothing] at once
  cases once

end Delivered

end LaliRpc.Zrpc.RpcClient
