/-
# Zrpc.RemoteCall — calls from the client to the handler and back

A client and a server over a connection (`World`): the client's session, the server's
message loop and dispatch, and between them two streams of bytes that are cut anywhere. A
handler keeps its done callback and may invoke it at any time, never, or more than once. The
server's services do not change, so one connection stands for all.
-/
import LaliRpc.Jackson.RoundTrip
import LaliRpc.Zrpc.CallIds
import LaliRpc.Zrpc.Limits
import LaliRpc.Zrpc.Resync

namespace LaliRpc.Zrpc

open LaliRpc.Jackson LaliRpc.Jackson.Reader LaliRpc.Jackson.Grammar
open LaliRpc.Net LaliRpc.Theory LaliRpc.Theory.Framing

set_option autoImplicit false

/-! ## Texts that are sent -/

section Texts

theorem cr_not_mem_digits {s : Bytes} (digits : ∀ c ∈ s, isDigit c = true) : 13 ∉ s := fun mem =>
  absurd (digits 13 mem) (by decide)

/-- The text of a number is on one line. -/
theorem NumberText.oneLine {type : ValueType} {t : Bytes} (spelled : NumberText type t) :
    13 ∉ t := by
  have signs : ∀ {sign : Bytes}, sign = [] ∨ sign = [chr '-'] → 13 ∉ sign := by
    rintro _ (rfl | rfl) <;> decide
  have wholes : ∀ {q : Bytes}, Whole q → 13 ∉ q := fun digits => cr_not_mem_digits digits.isDigit
  cases spelled with
  | @integer sign whole width type signed digits wide =>
      have tail : 13 ∉ width := by
        cases wide with
        | none => exact List.not_mem_nil
        | int32 | int64 => decide
      simp only [List.mem_append, not_or]
      exact ⟨⟨signs signed, wholes digits⟩, tail⟩
  | @floating sign whole fraction exponent point power signed digits frac exp either =>
      have fractional : 13 ∉ fraction := by
        cases frac with
        | none => exact List.not_mem_nil
        | some inside =>
            rw [List.mem_cons]
            exact not_or.mpr ⟨by decide, cr_not_mem_digits inside.2⟩
      have exponential : 13 ∉ exponent := by
        cases exp with
        | none => exact List.not_mem_nil
        | some letter signed' inside =>
            rw [List.mem_cons, List.mem_append]
            refine not_or.mpr ⟨?_, not_or.mpr ⟨?_, cr_not_mem_digits inside.2⟩⟩
            · rcases letter with rfl | rfl <;> decide
            · rcases signed' with rfl | rfl | rfl <;> decide
      simp only [List.mem_append, not_or]
      exact ⟨⟨⟨signs signed, wholes digits⟩, fractional⟩, exponential⟩

theorem cr_not_mem_number {t : Bytes} {v : Value} (number : Number t v) : 13 ∉ t := by
  cases number with
  | nan | infinity => decide
  | converted spelled _ => exact NumberText.oneLine spelled

theorem cr_not_mem_escape : ∀ c : UInt8, 13 ∉ Writer.escape c := by
  have all : ∀ n : Fin 256, 13 ∉ Writer.escape (UInt8.ofNat n) := by decide +kernel
  intro c
  have one := all ⟨c.toNat, c.toNat_lt⟩
  simpa using one

variable {sprintf : Double → Bytes}

mutual

/-- What the writer puts is on one line. -/
theorem cr_not_mem_write : ∀ {v : Value}, Readable sprintf v → 13 ∉ Writer.write sprintf v
  | .null, _ => by
      rw [Writer.write]
      decide
  | .bool b, _ => by
      rw [Writer.write]
      cases b <;> decide
  | .int32 i, _ => by
      rw [Writer.write]
      exact cr_not_mem_number (Writer.number_int32 i)
  | .int64 i, _ => by
      rw [Writer.write]
      exact cr_not_mem_number (Writer.number_int64 i)
  | .double d, .double text => by
      rw [Writer.write]
      exact cr_not_mem_number text
  | .string s, _ => by
      rw [Writer.write, Writer.quoted]
      simp only [List.mem_cons, List.mem_append, List.mem_flatMap, List.not_mem_nil, or_false, not_or,
        not_exists, not_and]
      exact ⟨by decide, fun c _ => cr_not_mem_escape c, by decide⟩
  | .array values, .array all => by
      rw [Writer.write]
      simp only [List.mem_cons, List.mem_append, List.not_mem_nil, or_false, not_or]
      exact ⟨by decide, cr_not_mem_writeValues 0 all, by decide⟩
  | .object members, .object plain all => by
      rw [Writer.write]
      simp only [List.mem_cons, List.mem_append, List.not_mem_nil, or_false, not_or]
      exact ⟨by decide, cr_not_mem_writeMembers 0 plain all, by decide⟩

theorem cr_not_mem_writeValues : ∀ (count : Nat) {values : List Value},
    (∀ v ∈ values, Readable sprintf v) → 13 ∉ Writer.writeValues sprintf count values
  | _, [], _ => List.not_mem_nil
  | count, v :: values, all => by
      have comma : 13 ∉ Writer.comma count := by
        unfold Writer.comma
        split <;> decide
      obtain ⟨first, others⟩ := List.forall_mem_cons.mp all
      rw [Writer.writeValues]
      simp only [List.mem_append, not_or]
      exact ⟨⟨comma, cr_not_mem_write first⟩, cr_not_mem_writeValues (count + 1) others⟩

theorem cr_not_mem_writeMembers : ∀ (count : Nat) {members : List (Bytes × Value)},
    (∀ m ∈ members, ∀ c ∈ m.1, Plain c) → (∀ m ∈ members, Readable sprintf m.2) →
      13 ∉ Writer.writeMembers sprintf count members
  | _, [], _, _ => List.not_mem_nil
  | count, m :: members, plain, all => by
      have comma : 13 ∉ Writer.comma count := by
        unfold Writer.comma
        split <;> decide
      have name : 13 ∉ m.1 := fun mem => (plain m List.mem_cons_self 13 mem).2.2 (by decide)
      obtain ⟨first, others⟩ := List.forall_mem_cons.mp all
      rw [Writer.writeMembers, Writer.key]
      simp only [List.mem_append, List.mem_cons, List.not_mem_nil, or_false, not_or]
      exact ⟨⟨⟨comma, ⟨by decide, name, by decide⟩⟩, by decide, cr_not_mem_write first⟩,
        cr_not_mem_writeMembers (count + 2) (fun n mem => plain n (List.mem_cons_of_mem m mem)) others⟩

end

/-- A text without a blank at either end is the whole of what it is read from. -/
theorem bare {pre t post w : Bytes} (whole : w = pre ++ t ++ post) (blank : Blank pre)
    (blank' : Blank post) (ink : isSpace (peek w) = false) (ink' : isSpace (peek w.reverse) = false) :
    w = t := by
  subst whole
  obtain rfl : pre = [] := by
    cases pre with
    | nil => rfl
    | cons c pre =>
        rw [List.cons_append, List.cons_append, peek_cons, blank c List.mem_cons_self] at ink
        cases ink
  have behind : Blank post.reverse := fun c mem => blank' c (List.mem_reverse.mp mem)
  rw [List.nil_append, List.reverse_append] at ink'
  cases same : post.reverse with
  | nil =>
      rw [List.reverse_eq_nil_iff.mp same, List.nil_append, List.append_nil]
  | cons c later =>
      rw [same] at behind
      rw [same, List.cons_append, peek_cons, behind c List.mem_cons_self] at ink'
      cases ink'

/-- The text that is sent for an object, and what it is read as. -/
theorem bracketed_write {members : List (Bytes × Value)} (readable : Readable sprintf (.object members))
    (keyed : (Value.object members).WellKeyed) :
    Bracketed (Writer.write sprintf (.object members)) ∧
      value? (Writer.write sprintf (.object members)) = some (Value.object members).reparse := by
  obtain ⟨w, b, t, b', put_text, -, blank, blank', d⟩ := Writer.spaces.writeTo (.object members)
    Writer.fresh Writer.fresh ⟨[], true⟩ [] rfl (fun type => rfl) readable
  rw [Writer.emit_writeTo _ Writer.fresh ⟨[], true⟩ [] fun type => rfl, List.nil_append,
    List.append_nil] at put_text
  obtain ⟨rfl, whole⟩ := Prod.mk.inj (Except.ok.inj put_text)
  have same := bare whole blank blank' (by rw [Writer.write]; rfl) (by
    rw [Writer.write, ← List.cons_append, List.reverse_append]
    rfl)
  rw [← same] at d
  refine ⟨⟨⟨_, d, .inr ?_⟩, cr_not_mem_write readable⟩, value?_eq_some.mpr ?_⟩
  · rw [Value.reparse_object]
    rfl
  · have read := parse_of_denotes d blank_nil blank_nil keyed.reparse
    rwa [List.nil_append, List.append_nil] at read

end Texts

/-! ## What is read of them -/

section Server

variable {κ ν : Type} (server : RpcServer κ ν)

theorem dispatchMessage_handles {ε : Type} (handle : Bytes → Exec ε Thrown Unit) (b : Buffer)
    (headerLen bodyLen : Nat) :
    let recorded := (dispatchMessage (Exec.emit : Bytes → Exec Bytes Thrown Unit) b headerLen
      bodyLen).ended
    (dispatchMessage handle b headerLen bodyLen).ended.state = recorded.state ∧
      (dispatchMessage handle b headerLen bodyLen).ended.events =
        recorded.events.flatMap fun json => (handle json).events := by
  by_cases short : b.readableBytes < headerLen + bodyLen
  · simp only [dispatchMessage_waits short]
    exact ⟨rfl, rfl⟩
  · simp only [dispatchMessage, if_neg short]
    cases (handle _).result <;> exact ⟨rfl, (List.append_nil _).symm⟩

/-- `onMessage` handles the texts that its loop takes. -/
theorem onMessage_handles (b : Buffer) :
    (server.onMessage b).state = (BaseServer.requests.run b).state ∧
      (server.onMessage b).events = (BaseServer.requests.run b).events.flatMap fun json =>
        (server.handleRequest json reply).events := by
  have outside : (server.onMessage b).state = ((BaseServer.handleMessage fun json =>
      server.handleRequest json reply).run b).state ∧ (server.onMessage b).events =
        ((BaseServer.handleMessage fun json => server.handleRequest json reply).run b).events := by
    simp only [RpcServer.onMessage, BaseServer.onMessage]
    split <;> exact ⟨rfl, rfl⟩
  rw [outside.1, outside.2, (BaseServer.handlesFrames _).run_eq, BaseServer.requests,
    (BaseServer.handlesFrames _).run_eq]
  show (BaseServer.handleMessagePass _ b).ended.state = (BaseServer.handleMessagePass _ b).ended.state ∧
    (BaseServer.handleMessagePass _ b).ended.events =
      (BaseServer.handleMessagePass _ b).ended.events.flatMap _
  unfold BaseServer.handleMessagePass
  split
  · exact ⟨rfl, rfl⟩
  · split
    · exact ⟨rfl, rfl⟩
    · split
      · exact ⟨rfl, rfl⟩
      · exact ⟨rfl, rfl⟩
      · split
        · exact ⟨rfl, rfl⟩
        · exact dispatchMessage_handles _ b _ _

/-- The handlers called, each with its done callback. -/
def calls (events : List (Event κ ν)) : List (κ × UserDoneCallback) :=
  events.filterMap fun
    | .callReturn callback request done => some (callback, ⟨request, done⟩)
    | _ => none

/-- A text that is no value calls nothing. -/
theorem calls_unread {json : Bytes} (unread : value? json = none) :
    calls (server.handleRequest json reply).events = [] := by
  cases parsed : parse json with
  | ok v => simp [value?, parsed, Except.toOption] at unread
  | error fault =>
      rw [RpcServer.handleRequest, parsed]
      cases fault <;> rfl

/-- An object calls at most the handler that it is accepted for. -/
theorem calls_object {json : Bytes} {members : List (Bytes × Value)}
    (read : value? json = some (.object members)) :
    calls (server.handleRequest json reply).events = [] ∨
      ∃ p, Accepted server members p ∧ calls (server.handleRequest json reply).events =
        [(p.callback, ⟨.object members, reply⟩)] := by
  have parsed := value?_eq_some.mp read
  rw [handleRequest_ok parsed]
  cases found : members.lookup (ascii "id") with
  | none =>
      rw [dispatch_notify found]
      exact .inl rfl
  | some id =>
      rw [dispatch_call found]
      have distinct := (parse_wellKeyed parsed).distinct
      by_cases accepted : ∃ p, Accepted server members p
      · obtain ⟨p, accepted⟩ := accepted
        rw [handleSingleRequest_accepted distinct accepted]
        exact .inr ⟨p, accepted, rfl⟩
      · obtain ⟨t, refused⟩ := handleSingleRequest_not_accepted distinct accepted reply
        rw [refused]
        exact .inl rfl

end Server

/-! ## The two sides of a connection -/

/-- The bytes `sendRequest` gives to the connection. -/
def RpcClient.sendRequest (sprintf : Double → Bytes) (request : Value) : Bytes :=
  frame (Writer.write sprintf request)

/-- What is sent of what a done callback does. -/
def sendResponses (sprintf : Double → Bytes) (effects : List DoneEffect) : Bytes :=
  effects.flatMap fun
    | .sendResponse response => BaseServer.sendResponse sprintf response
    | .addResponse _ => []

structure World (κ ρ : Type) where
  session : RpcClient.Session ρ
  /-- The client's input buffer. -/
  inbox : Buffer
  /-- Sent by the client and not yet read. -/
  requests : Bytes
  /-- The server's input buffer. -/
  input : Buffer
  /-- The calls of handlers so far. -/
  called : List (κ × UserDoneCallback)
  /-- Sent by the server and not yet read. -/
  responses : Bytes
  /-- No exception has left `onMessage`. -/
  serving : Bool

namespace World

variable {κ ν ρ : Type}

inductive Action (ρ : Type) where
  | call (call : Value) (cb : ρ)
  | notify (notify : Value)
  /-- The server reads these bytes. -/
  | request (got : Bytes)
  /-- A done callback is invoked with this result. -/
  | answer (done : UserDoneCallback) (result : Value)
  /-- The client reads these bytes. -/
  | response (got : Bytes)
  | element (response : Value)
  | finish

def start : World κ ρ := ⟨.start, .fresh, [], .fresh, [], [], true⟩

section Step

variable (server : RpcServer κ ν) (sprintf : Double → Bytes)

inductive Step : World κ ρ → Action ρ → World κ ρ → Prop where
  | call {w : World κ ρ} {call request : Value} {cb : ρ} {client : RpcClient ρ}
      (running : w.session.Idle ∨ w.session.inside.isSome)
      (sent : w.session.client.sendCall call cb = .ok (client, request)) :
      Step w (.call call cb) { w with
        session := { w.session with client := client },
        requests := w.requests ++ RpcClient.sendRequest sprintf request }
  | notify {w : World κ ρ} {notify : Value} (running : w.session.Idle ∨ w.session.inside.isSome) :
      Step w (.notify notify) { w with
        requests := w.requests ++ RpcClient.sendRequest sprintf notify }
  | request {w : World κ ρ} {got rest : Bytes} (serving : w.serving = true) (nonempty : got ≠ [])
      (wire : w.requests = got ++ rest) :
      Step w (.request got) { w with
        input := (server.onMessage (w.input.readFd got)).state,
        requests := rest,
        called := w.called ++ calls (server.onMessage (w.input.readFd got)).events,
        serving := (server.onMessage (w.input.readFd got)).thrown.isNone }
  | answer {w : World κ ρ} {callback : κ} {done : UserDoneCallback} {result : Value}
      {effects : List DoneEffect} (serving : w.serving = true) (mem : (callback, done) ∈ w.called)
      (made : done.call result = .ok effects) :
      Step w (.answer done result) { w with
        responses := w.responses ++ sendResponses sprintf effects }
  /-- The client's loop hands nothing on. -/
  | wait {w : World κ ρ} {got rest : Bytes} (idle : w.session.Idle) (nonempty : got ≠ [])
      (wire : w.responses = got ++ rest)
      (nothing : (RpcClient.responses.run (w.inbox.readFd got)).events = [])
      (caught : ∀ t, (RpcClient.responses.run (w.inbox.readFd got)).thrown = some t → isException t) :
      Step w (.response got) { w with
        inbox := (RpcClient.responses.run (w.inbox.readFd got)).state, responses := rest }
  | response {w : World κ ρ} {got rest json : Bytes} {session : RpcClient.Session ρ}
      (nonempty : got ≠ []) (wire : w.responses = got ++ rest)
      (text : (RpcClient.responses.run (w.inbox.readFd got)).events = [json])
      (taken : w.session.Step (.receive json) session) :
      Step w (.response got) { w with
        session := session,
        inbox := (RpcClient.responses.run (w.inbox.readFd got)).state, responses := rest }
  | element {w : World κ ρ} {response : Value} {session : RpcClient.Session ρ}
      (taken : w.session.Step (.element response) session) :
      Step w (.element response) { w with session := session }
  | finish {w : World κ ρ} {session : RpcClient.Session ρ} (taken : w.session.Step .finish session) :
      Step w .finish { w with session := session }

end Step

/-! ## Requests and responses -/

/-- What the request of the n-th call is read as, if there is one. -/
def asked (n : Nat) (call : Value) : Option Value :=
  (call.addMember (ascii "id") (.int64 (Int64.ofNat n))).toOption.map Value.reparse

/-- The name under which a request is answered. -/
def idOf : Value → Option Value
  | .object members => members.lookup (ascii "id")
  | _ => none

section Requests

variable {sprintf : Double → Bytes} {n : Nat} {call v : Value}

/-- A request is the call with an id behind its members. -/
theorem asked_eq_some (request : asked n call = some v) : ∃ members : List (Bytes × Value),
    call = .object members ∧ members.lookup (ascii "id") = none ∧
      call.addMember (ascii "id") (.int64 (Int64.ofNat n)) =
        .ok (.object (members ++ [(ascii "id", .int64 (Int64.ofNat n))])) ∧
      v = (Value.object (members ++ [(ascii "id", .int64 (Int64.ofNat n))])).reparse := by
  cases call with
  | object members =>
      cases new : members.lookup (ascii "id") with
      | some old =>
          rw [asked, Value.addMember, new] at request
          cases request
      | none =>
          have added : (Value.object members).addMember (ascii "id") (.int64 (Int64.ofNat n)) =
              .ok (.object (members ++ [(ascii "id", .int64 (Int64.ofNat n))])) := by
            rw [Value.addMember, new]
          rw [asked, added] at request
          exact ⟨members, rfl, new, added, (Option.some.inj request).symm⟩
  | _ => cases request

theorem idOf_asked (request : asked n call = some v) :
    idOf v = some (Value.int64 (Int64.ofNat n)).reparse := by
  obtain ⟨members, -, new, -, rfl⟩ := asked_eq_some request
  rw [Value.reparse_object, idOf, lookup_map_snd, List.lookup_append, new]
  rfl

theorem reparse_int64_injective {i j : Int64}
    (same : (Value.int64 i).reparse = (Value.int64 j).reparse) : i = j := by
  by_cases narrow : Fits32 i
  · by_cases narrow' : Fits32 j
    · rw [Value.reparse_narrow narrow, Value.reparse_narrow narrow'] at same
      rw [← RpcClient.toInt64_toInt32 narrow, Value.int32.inj same, RpcClient.toInt64_toInt32 narrow']
    · rw [Value.reparse_narrow narrow, Value.reparse_wide narrow'] at same
      cases same
  · by_cases narrow' : Fits32 j
    · rw [Value.reparse_wide narrow, Value.reparse_narrow narrow'] at same
      cases same
    · rw [Value.reparse_wide narrow, Value.reparse_wide narrow'] at same
      exact Value.int64.inj same

theorem sendable_asked {members : List (Bytes × Value)} (keyed : (Value.object members).WellKeyed)
    (readable : Readable sprintf (.object members)) (new : members.lookup (ascii "id") = none)
    (i : Int64) : (Value.object (members ++ [(ascii "id", .int64 i)])).WellKeyed ∧
      Readable sprintf (.object (members ++ [(ascii "id", .int64 i)])) := by
  constructor
  · cases keyed with
    | object distinct all =>
        refine .object ?_ (List.forall_mem_append.mpr
          ⟨all, List.forall_mem_singleton.mpr (.int64 i)⟩)
        rw [List.map_append, List.nodup_append]
        refine ⟨distinct, List.nodup_singleton _, ?_⟩
        rintro k mem k' mem' rfl
        obtain rfl : k = ascii "id" := List.mem_singleton.mp mem'
        exact lookup_eq_none_iff.mp new mem
  · cases readable with
    | object plain all =>
        have id : ∀ c ∈ ascii "id", Plain c := plain_of_all (by decide)
        exact .object (List.forall_mem_append.mpr ⟨plain, List.forall_mem_singleton.mpr id⟩)
          (List.forall_mem_append.mpr ⟨all, List.forall_mem_singleton.mpr (.int64 i)⟩)

variable (sprintf) in
theorem sendable_int64 (i : Int64) : (Value.int64 i).reparse.WellKeyed ∧
    Readable sprintf (Value.int64 i).reparse := by
  by_cases narrow : Fits32 i
  · rw [Value.reparse_narrow narrow]
    exact ⟨.int32 _, .int32 _⟩
  · rw [Value.reparse_wide narrow]
    exact ⟨.int64 i, .int64 i⟩

/-- The text of a response. -/
theorem bracketed_response (i : Int64) {result : Value} (keyed : result.WellKeyed)
    (readable : Readable sprintf result) :
    let text := Writer.write sprintf (UserDoneCallback.resultResponse (Value.int64 i).reparse result)
    Bracketed text ∧
      value? text = some (UserDoneCallback.resultResponse (Value.int64 i).reparse result.reparse) := by
  intro text
  obtain ⟨keyed', readable'⟩ := sendable_int64 sprintf i
  have version : ∀ c ∈ ascii "jsonrpc", Plain c := plain_of_all (by decide)
  have id : ∀ c ∈ ascii "id", Plain c := plain_of_all (by decide)
  have outcome : ∀ c ∈ ascii "result", Plain c := plain_of_all (by decide)
  have isReadable : Readable sprintf (UserDoneCallback.resultResponse (Value.int64 i).reparse result) :=
    .object (by simpa using ⟨version, id, outcome⟩)
      (by simpa using ⟨.string _, readable', readable⟩)
  have isKeyed : (UserDoneCallback.resultResponse (Value.int64 i).reparse result).WellKeyed :=
    .object (show [ascii "jsonrpc", ascii "id", ascii "result"].Nodup by decide)
      (by simpa using ⟨.string _, keyed', keyed⟩)
  have sent := bracketed_write isReadable isKeyed
  refine ⟨sent.1, sent.2.trans ?_⟩
  simp [UserDoneCallback.resultResponse, Value.reparse_reparse_int64]

end Requests

end World

end LaliRpc.Zrpc
