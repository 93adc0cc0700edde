/-
# Zrpc.CallIds — the id of a call, there and back

A call's id starts as the client's 64-bit counter. It is written as digits, read by
the server, put into the response as it was read, written and read again, and at
last used as the key of the callback. The reader gives it 32 bits when it fits, and
the client's validator takes no other width, so a response finds its call exactly
when the counter was below 2^31 (`response_finds_call_iff`).
-/
import LaliRpc.Jackson.Reparse
import LaliRpc.Jackson.Writer
import LaliRpc.Zrpc.Responses

namespace LaliRpc.Zrpc.RpcClient

open LaliRpc.Jackson LaliRpc.Theory

set_option autoImplicit false

/-! ## Widths -/

theorem fits32_ofNat_iff {n : Nat} (small : n < 2 ^ 63) : Fits32 (Int64.ofNat n) ↔ n < 2 ^ 31 := by
  rw [Fits32, Int64.toInt_ofNat_of_lt small]
  omega

/-- A 64-bit value that fits is the same map key after the way through 32 bits. -/
theorem toInt64_toInt32 {i : Int64} (fits : Fits32 i) : i.toInt32.toInt64 = i := by
  obtain ⟨low, high⟩ := fits
  apply Int64.toInt_inj.mp
  rw [Int32.toInt_toInt64, Int64.toInt_toInt32]
  exact Int.bmod_eq_of_le (by omega) (by omega)

/-! ## One exchange -/

/-- The request is written and read by the server, which answers it with a result,
and the response is written and read by the client. Both texts come back as the
library reads integers: with 32 bits when they fit. -/
structure Exchange (sprintf : Double → Bytes) (request result response : Value) : Prop where
  asked : parse (Writer.write sprintf request ++ crlf) = .ok request.reparse
  built : ∃ done, UserDoneCallback.response ⟨request.reparse, done⟩ result = .ok response
  answered : parse (Writer.write sprintf response ++ crlf) = .ok response.reparse

/-- The text is a valid response, and it invokes this callback with this result. -/
def FindsCall {ρ : Type} (client : RpcClient ρ) (json : Bytes) (id : Int64) (cb : ρ)
    (result : Value) : Prop :=
  ∃ response, responseElements json = .ok [response] ∧ validateResponse response = .ok () ∧
    client.findDelivery response = .ok (some ⟨id, cb, result, false, false⟩)

section Exchange

variable {ρ : Type} {call request result response : Value} {client client' : RpcClient ρ} {cb : ρ}

/-- The request of a call carries the counter. -/
theorem request_of_sendCall (sent : client.sendCall call cb = .ok (client', request)) :
    ∃ members, members.lookup (ascii "id") = none ∧
      request = .object (members ++ [(ascii "id", .int64 client.id)]) := by
  obtain ⟨added, ok, result⟩ := except_bind_eq_ok.mp sent
  obtain ⟨-, rfl⟩ := Prod.mk.inj (Except.ok.inj result)
  cases call with
  | object members =>
      cases new : members.lookup (ascii "id") with
      | some v =>
          simp only [Value.addMember, new] at ok
          cases ok
      | none =>
          simp only [Value.addMember, new] at ok
          exact ⟨members, new, (Except.ok.inj ok).symm⟩
  | _ => cases ok

/-- The response has the id that was read. -/
theorem response_of_exchange {sprintf : Double → Bytes}
    (sent : client.sendCall call cb = .ok (client', request))
    (exchange : Exchange sprintf request result response) :
    response.reparse =
      UserDoneCallback.resultResponse (Value.int64 client.id).reparse result.reparse := by
  obtain ⟨members, new, rfl⟩ := request_of_sendCall sent
  obtain ⟨done, built⟩ := exchange.built
  have found : ((members ++ [(ascii "id", Value.int64 client.id)]).map fun m : Bytes × Value =>
      (m.1, m.2.reparse)).lookup (ascii "id") = some (Value.int64 client.id).reparse := by
    rw [lookup_map_snd, List.lookup_append, new]
    rfl
  rw [UserDoneCallback.response_eq (Value.reparse_object _) found] at built
  obtain rfl := Except.ok.inj built
  simp [UserDoneCallback.resultResponse, Value.reparse_reparse_int64]

/-- It is valid when the id was read with 32 bits. -/
theorem isResponse_resultResponse (id : Int32) (result : Value) :
    IsResponse [(ascii "jsonrpc", .string (ascii "2.0")), (ascii "id", .int32 id),
      (ascii "result", result)] id :=
  ⟨rfl, rfl, rfl, nofun⟩

/-- A pending call is found by its response exactly when its id fits 32 bits. -/
theorem findsCall_iff {sprintf : Double → Bytes} {client'' : RpcClient ρ}
    (sent : client.sendCall call cb = .ok (client', request))
    (exchange : Exchange sprintf request result response)
    (entry : client''.callbacks.find client.id = some cb) :
    FindsCall client'' (Writer.write sprintf response ++ crlf) client.id cb result.reparse ↔
      Fits32 client.id := by
  have read := response_of_exchange sent exchange
  have elements : responseElements (Writer.write sprintf response ++ crlf) =
      .ok [response.reparse] := by
    simp only [responseElements, exchange.answered]
    rw [read]
    rfl
  constructor
  · rintro ⟨response', same, valid, -⟩
    obtain rfl : response.reparse = response' :=
      List.cons.inj (Except.ok.inj (elements.symm.trans same)) |>.1
    by_contra wide
    rw [read, Value.reparse_wide wide] at valid
    obtain ⟨id, -, found, -, -⟩ := validateResponse_object_iff.mp valid
    cases found
  · intro fits
    have valid := isResponse_resultResponse client.id.toInt32 result.reparse
    refine ⟨_, elements, ?_, ?_⟩
    · rw [read, Value.reparse_narrow fits]
      exact validateResponse_object_iff.mpr ⟨_, valid⟩
    · rw [read, Value.reparse_narrow fits]
      have key := toInt64_toInt32 fits
      have found := findDelivery_result valid (key.symm ▸ entry) rfl
      rw [key] at found
      exact found

end Exchange

/-! ## The whole life of a client -/

section Life

variable {ρ : Type} {before after : List (Session ρ × Action ρ)} {s t : Session ρ}
  {client : RpcClient ρ} {call request result response : Value} {cb : ρ}

/-- The next call gets the number of calls before it as its id. -/
theorem id_of_run (earlier : Run Session.Step Session.start before s)
    (few : (Ledger.of before).issued.length < 2 ^ 63) :
    s.client.id = Int64.ofNat (Ledger.of before).issued.length :=
  (tracks_of_run earlier few).next

/-- **A response finds its call exactly when fewer than 2^31 calls were sent
before it.** -/
theorem response_finds_call_iff {sprintf : Double → Bytes}
    (earlier : Run Session.Step Session.start before s) (running : s.Idle ∨ s.inside.isSome)
    (sent : s.client.sendCall call cb = .ok (client, request))
    (later : Run Session.Step { s with client := client } after t)
    (few : (Ledger.of (before ++ (s, .sendCall call cb) :: after)).issued.length < 2 ^ 63)
    (waiting : (Ledger.of (before ++ (s, .sendCall call cb) :: after)).Pending s.client.id)
    (exchange : Exchange sprintf request result response) :
    FindsCall t.client (Writer.write sprintf response ++ crlf) s.client.id cb result.reparse ↔
      (Ledger.of before).issued.length < 2 ^ 31 := by
  have fewBefore := Nat.lt_of_le_of_lt (Ledger.issued_append before _).length_le few
  have id := id_of_run earlier fewBefore
  have tracks := tracks_of_run (earlier.append (.cons (.sendCall running sent) later)) few
  have issued : (s.client.id, cb) ∈
      (Ledger.of (before ++ (s, .sendCall call cb) :: after)).issued := by
    have grown := Ledger.issued_append (before ++ [(s, .sendCall call cb)]) after
    rw [List.append_assoc, List.singleton_append, Ledger.of_append before] at grown
    refine grown.subset (List.mem_append_right _ ?_)
    rw [id]
    exact List.mem_singleton_self _
  have entry : t.client.callbacks.find s.client.id = some cb :=
    (tracks.entries _ _).mpr ⟨issued, .inl waiting.2⟩
  rw [findsCall_iff sent exchange entry, id, fits32_ofNat_iff fewBefore]

/-- A client can make any number of calls. -/
theorem exists_calls (n : Nat) : ∃ (before : List (Session Unit × Action Unit)) (s : Session Unit),
    Run Session.Step Session.start before s ∧ s.Idle ∧ (Ledger.of before).issued.length = n := by
  obtain ⟨before, run, ledger⟩ := run_called (fun _ => ()) n
  refine ⟨before, _, run, called_idle _ n, ?_⟩
  rw [ledger, List.length_map, List.length_range]

end Life

/-! ### The fourth call, and one too late -/

/-- The request for a call without members. -/
def bareRequest (id : Int64) : Value := .object [(ascii "id", .int64 id)]

theorem fourth_exchange : Exchange Writer.noDoubles (bareRequest 3) (.int32 7)
    (UserDoneCallback.resultResponse (.int32 3) (.int32 7)) :=
  ⟨by decide +kernel, ⟨fun _ => [], by decide +kernel⟩, by decide +kernel⟩

theorem late_exchange : Exchange Writer.noDoubles (bareRequest 2147483648) (.int32 3)
    (UserDoneCallback.resultResponse (.int64 2147483648) (.int32 3)) :=
  ⟨by decide +kernel, ⟨fun _ => [], by decide +kernel⟩, by decide +kernel⟩

/-- The call after three others, when a fifth has been made. -/
theorem fourth_call_found :
    FindsCall (called (fun _ => ()) 5).client
      (Writer.write Writer.noDoubles (UserDoneCallback.resultResponse (.int32 3) (.int32 7)) ++ crlf)
      3 () (.int32 7) := by
  obtain ⟨before, earlier, ledger⟩ := run_called (fun _ => ()) 3
  have sent : (called (fun _ => ()) 3).client.sendCall (.object []) () =
      .ok ((called (fun _ => ()) 4).client, bareRequest 3) := rfl
  have later : Run Session.Step (called (fun _ => ()) 4) _ (called (fun _ => ()) 5) :=
    .cons (called_step _ 4) (.nil _)
  have few : (Ledger.of before).issued.length = 3 := by
    rw [ledger]
    rfl
  refine (response_finds_call_iff earlier (.inl (called_idle _ 3)) sent later ?_ ?_
    fourth_exchange).mpr (by omega)
  · simp [Ledger.of_append, Ledger.record, ledger]
  · rw [Ledger.of_append, ledger]
    decide

/-- The response to the call after 2^31 others is refused. -/
theorem late_call_lost :
    ∃ (before : List (Session Unit × Action Unit)) (s : Session Unit) (client : RpcClient Unit),
      Run Session.Step Session.start before s ∧ s.Idle ∧
      (Ledger.of before).issued.length = 2 ^ 31 ∧
      s.client.sendCall (.object []) () = .ok (client, bareRequest 2147483648) ∧
      Exchange Writer.noDoubles (bareRequest 2147483648) (.int32 3)
        (UserDoneCallback.resultResponse (.int64 2147483648) (.int32 3)) ∧
      ¬ FindsCall client (Writer.write Writer.noDoubles
        (UserDoneCallback.resultResponse (.int64 2147483648) (.int32 3)) ++ crlf) s.client.id ()
        (.int32 3) := by
  obtain ⟨before, s, run, idle, length⟩ := exists_calls (2 ^ 31)
  have id : s.client.id = 2147483648 := by
    rw [id_of_run run (by omega), length]
    decide
  have sent : s.client.sendCall (.object []) () =
      .ok (⟨s.client.id + 1, s.client.callbacks.assign s.client.id ()⟩, bareRequest 2147483648) := by
    rw [← id]
    rfl
  refine ⟨before, s, _, run, idle, length, sent, late_exchange, fun found => ?_⟩
  have fits := (findsCall_iff sent late_exchange (Table.find_assign_self _ _ _)).mp found
  rw [id] at fits
  exact absurd fits (by decide)

end LaliRpc.Zrpc.RpcClient
