/-
# Zrpc.CallCompletes — a call on a quiet connection can be answered

Nothing on the way, nothing pending in a buffer: a call that the server accepts reaches its
handler, and the handler's result the callback, however the two messages are cut
(`call_completes`). What it takes is that both messages are below the limits of their
readers and that the id is one that the client takes back.
-/
import LaliRpc.Zrpc.RemoteCall

namespace LaliRpc.Zrpc.World

open LaliRpc.Jackson LaliRpc.Jackson.Reader LaliRpc.Jackson.Grammar
open LaliRpc.Net LaliRpc.Theory LaliRpc.Theory.Framing

set_option autoImplicit false

variable {κ ν ρ : Type}

/-- Nothing is on the way, and nothing is waited for in a buffer. -/
structure Quiet (w : World κ ρ) : Prop where
  idle : w.session.Idle
  requests : w.requests = []
  input : w.input.Valid ∧ w.input.readable = []
  responses : w.responses = []
  inbox : w.inbox.Valid ∧ w.inbox.readable = []
  serving : w.serving = true

/-- The pieces of a message that are read one after another. -/
structure Cut (pieces : List Bytes) (message : Bytes) : Prop where
  nonempty : ∀ c ∈ pieces, c ≠ []
  whole : pieces.flatten = message

theorem parse_append {s b : Bytes} {v : Value} (read : parse s = .ok v) (blank : Blank b) :
    parse (s ++ b) = .ok v := by
  obtain ⟨pre, t, post, rfl, before, behind, d⟩ := denotes_of_parse read
  rw [List.append_assoc]
  exact parse_of_denotes d before (blank_append behind blank) (parse_wellKeyed read)

/-- A piece is the last one, or the message is not there yet. -/
theorem last_or_part {p c message : Bytes} {rest : List Bytes} (others : ∀ d ∈ rest, d ≠ [])
    (whole : p ++ (c :: rest).flatten = message) : (p ++ c = message ∧ rest = []) ∨
      p ++ c <+: message ∧ p ++ c ≠ message ∧ p ++ c ++ rest.flatten = message := by
  rw [List.flatten_cons, ← List.append_assoc] at whole
  by_cases done : p ++ c = message
  · refine .inl ⟨done, ?_⟩
    cases rest with
    | nil => rfl
    | cons d rest =>
        rw [done, List.append_right_eq_self, List.flatten_cons, List.append_eq_nil_iff] at whole
        exact absurd whole.1 (others d List.mem_cons_self)
  · exact .inr ⟨⟨_, whole⟩, done, whole⟩

section Pieces

variable (server : RpcServer κ ν) (sprintf : Double → Bytes)

theorem onMessage_part (text : Text BaseServer.kMaxMessageLen) {b : Buffer} (valid : b.Valid)
    (part : b.readable <+: frame text.1) (ne : b.readable ≠ frame text.1) :
    server.onMessage b = ⟨b, [], none⟩ := by
  have ran := (BaseServer.handlesFrames fun json => server.handleRequest json reply).run_part
    (by decide) text valid part ne
  rw [RpcServer.onMessage, BaseServer.onMessage, ran]

variable {server} in
theorem onMessage_whole (text : Text BaseServer.kMaxMessageLen) {b : Buffer} (valid : b.Valid)
    (whole : b.readable = frame text.1) {members : List (Bytes × Value)} {p : Procedure κ}
    (read : value? text.1 = some (.object members)) (accepted : Accepted server members p) :
    server.onMessage b = ⟨(b.retrieve (header text.1).length).retrieveAll,
      [.callReturn p.callback (.object members) reply], none⟩ := by
  have front : b.readable = frame text.1 ++ [] := by rw [whole, List.append_nil]
  have ran := (BaseServer.handlesFrames fun json => server.handleRequest json reply).run_frame
    (by decide) text valid front
  have parsed := parse_append (value?_eq_some.mp read) blank_crlf
  obtain ⟨id, found⟩ := accepted.hasId
  have handled : server.handleRequest (text.1 ++ crlf) reply =
      ⟨[.callReturn p.callback (.object members) reply], .ok ()⟩ := by
    rw [handleRequest_ok parsed, dispatch_call found,
      handleSingleRequest_accepted (parse_wellKeyed parsed).distinct accepted]
  rw [List.append_nil, handled] at ran
  rw [RpcServer.onMessage, BaseServer.onMessage, ran]
  rfl

variable {server} in
theorem request_step {w : World κ ρ} {got rest : Bytes} {b : Buffer} {events : List (Event κ ν)}
    (serving : w.serving = true) (nonempty : got ≠ []) (wire : w.requests = got ++ rest)
    (handled : server.onMessage (w.input.readFd got) = ⟨b, events, none⟩) :
    Step server sprintf w (.request got)
      { w with input := b, requests := rest, called := w.called ++ calls events } := by
  have step : Step server sprintf w (.request got) _ := .request serving nonempty wire
  rw [handled] at step
  cases w
  cases serving
  exact step

variable {server} in
/-- A request is read in any number of pieces. -/
theorem run_requests (text : Text BaseServer.kMaxMessageLen) {members : List (Bytes × Value)}
    {p : Procedure κ} (read : value? text.1 = some (.object members))
    (accepted : Accepted server members p) {pieces : List Bytes} (nonempty : ∀ c ∈ pieces, c ≠ [])
    {w : World κ ρ} (valid : w.input.Valid)
    (whole : w.input.readable ++ pieces.flatten = frame text.1)
    (part : w.input.readable ≠ frame text.1) (wire : w.requests = pieces.flatten)
    (serving : w.serving = true) :
    ∃ trace b, Run (Step server sprintf) w trace { w with
        input := b, requests := [], called := w.called ++ [(p.callback, ⟨.object members, reply⟩)] } ∧
      b.Valid ∧ b.readable = [] ∧ trace.map Prod.snd = pieces.map Action.request := by
  induction pieces generalizing w with
  | nil => exact absurd ((List.append_nil _).symm.trans whole) part
  | cons c rest ih =>
      obtain ⟨ne, others⟩ := List.forall_mem_cons.mp nonempty
      have valid' := Buffer.valid_readFd valid c
      have held : (w.input.readFd c).readable = w.input.readable ++ c :=
        Buffer.readable_readFd valid c
      rcases last_or_part others whole with ⟨done, rfl⟩ | ⟨front, part', whole'⟩
      · have handled := onMessage_whole text valid' (held.trans done) read accepted
        have step := request_step sprintf serving ne
          (wire.trans (List.flatten_singleton.trans (List.append_nil c).symm)) handled
        exact ⟨_, _, .cons step (.nil _), Buffer.valid_retrieveAll (Buffer.valid_retrieve valid' _),
          Buffer.readable_retrieveAll _, rfl⟩
      · have handled := onMessage_part server text valid' (held ▸ front) (held ▸ part')
        have step := request_step sprintf serving ne wire handled
        rw [show calls ([] : List (Event κ ν)) = [] from rfl, List.append_nil] at step
        obtain ⟨trace, b, run, validEnd, emptyEnd, actions⟩ := ih others
          (w := { w with input := w.input.readFd c, requests := rest.flatten }) valid'
          (held ▸ whole') (held ▸ part') rfl serving
        exact ⟨_, b, .cons step run, validEnd, emptyEnd, congrArg (Action.request c :: ·) actions⟩

/-- So is a response, whose element is then to come. -/
theorem run_responses (text : Text RpcClient.kMaxMessageLen) {response : List (Bytes × Value)}
    (read : value? text.1 = some (.object response)) {pieces : List Bytes}
    (nonempty : ∀ c ∈ pieces, c ≠ []) {w : World κ ρ} (idle : w.session.Idle) (valid : w.inbox.Valid)
    (whole : w.inbox.readable ++ pieces.flatten = frame text.1)
    (part : w.inbox.readable ≠ frame text.1) (wire : w.responses = pieces.flatten) :
    ∃ trace b, Run (Step server sprintf) w trace { w with
        session := { w.session with rest := [.object response] }, inbox := b, responses := [] } ∧
      b.Valid ∧ b.readable = [] ∧ trace.map Prod.snd = pieces.map Action.response := by
  have handles := RpcClient.handlesFrames (Exec.emit : Bytes → Exec Bytes Thrown Unit)
  induction pieces generalizing w with
  | nil => exact absurd ((List.append_nil _).symm.trans whole) part
  | cons c rest ih =>
      obtain ⟨ne, others⟩ := List.forall_mem_cons.mp nonempty
      have valid' := Buffer.valid_readFd valid c
      have held : (w.inbox.readFd c).readable = w.inbox.readable ++ c :=
        Buffer.readable_readFd valid c
      rcases last_or_part others whole with ⟨done, rfl⟩ | ⟨front, part', whole'⟩
      · have arrived : (w.inbox.readFd c).readable = frame text.1 ++ [] := by
          rw [held, done, List.append_nil]
        have ran := handles.run_frame (by decide) text valid' arrived
        have taken : RpcClient.responseElements (text.1 ++ crlf ++ []) = .ok [.object response] := by
          rw [List.append_nil, RpcClient.responseElements,
            parse_append (value?_eq_some.mp read) blank_crlf]
          rfl
        have step : Step server sprintf w (.response c) _ := .response ne
          (wire.trans (List.flatten_singleton.trans (List.append_nil c).symm))
          (congrArg Ended.events ran) (.receive idle taken)
        rw [RpcClient.responses, ran] at step
        exact ⟨_, _, .cons step (.nil _), Buffer.valid_retrieveAll (Buffer.valid_retrieve valid' _),
          Buffer.readable_retrieveAll _, rfl⟩
      · have ran := handles.run_part (by decide) text valid' (held ▸ front) (held ▸ part')
        have step : Step server sprintf w (.response c) _ := .wait idle ne wire
          (congrArg Ended.events ran) (by
            rw [RpcClient.responses, ran]
            intro t thrown
            cases thrown)
        rw [RpcClient.responses, ran] at step
        obtain ⟨trace, b, run, validEnd, emptyEnd, actions⟩ := ih others
          (w := { w with inbox := w.inbox.readFd c, responses := rest.flatten }) idle valid'
          (held ▸ whole') (held ▸ part') rfl
        exact ⟨_, b, .cons step run, validEnd, emptyEnd, congrArg (Action.response c :: ·) actions⟩

end Pieces

/-! ## One call, and one call after another -/

/-- A call with the result it gets, and the pieces in which the two messages are read. -/
structure Talk (κ ρ : Type) where
  members : List (Bytes × Value)
  cb : ρ
  procedure : Procedure κ
  result : Value
  asks : List Bytes
  replies : List Bytes

namespace Talk

/-- What is sent, under the next id. -/
def request (t : Talk κ ρ) (id : Int64) : List (Bytes × Value) :=
  t.members ++ [(ascii "id", .int64 id)]

def response (t : Talk κ ρ) (id : Int64) : Value :=
  UserDoneCallback.resultResponse (Value.int64 id).reparse t.result

/-- The handler's call, of the request as it is read. -/
def asked (t : Talk κ ρ) (id : Int64) : κ × UserDoneCallback :=
  (t.procedure.callback, ⟨(Value.object (t.request id)).reparse, reply⟩)

/-- The callback's, for the response as it is read. -/
def told (t : Talk κ ρ) (id : Int64) : Value × RpcClient.Delivery ρ :=
  (UserDoneCallback.resultResponse (Value.int64 id).reparse t.result.reparse,
    ⟨id, t.cb, t.result.reparse, false, false⟩)

/-- The call, both messages read piece by piece, and in between the answer. -/
def actions (t : Talk κ ρ) (id : Int64) : List (Action ρ) :=
  .call (.object t.members) t.cb :: (t.asks.map .request ++
    .answer (t.asked id).2 t.result :: (t.replies.map .response ++ [.element (t.told id).1, .finish]))

/-- The server accepts the call, both messages can be read back and are below the limits, and
the client takes the id. -/
structure Possible (server : RpcServer κ ν) (sprintf : Double → Bytes) (t : Talk κ ρ)
    (id : Int64) : Prop where
  new : t.members.lookup (ascii "id") = none
  call : (Value.object t.members).WellKeyed ∧ Readable sprintf (.object t.members)
  result : t.result.WellKeyed ∧ Readable sprintf t.result
  accepted : ∃ members, (Value.object (t.request id)).reparse = .object members ∧
    Accepted server members t.procedure
  fits : Fits32 id
  asks : Cut t.asks (RpcClient.sendRequest sprintf (.object (t.request id)))
  replies : Cut t.replies (BaseServer.sendResponse sprintf (t.response id))
  belowServer : (Writer.write sprintf (.object (t.request id))).length + 2 < BaseServer.kMaxMessageLen
  belowClient : (Writer.write sprintf (t.response id)).length + 2 < RpcClient.kMaxMessageLen

section One

variable (server : RpcServer κ ν) (sprintf : Double → Bytes) {t : Talk κ ρ} {w : World κ ρ}

/-- The element that was received invokes the callback and is done with. -/
theorem run_element {s : RpcClient.Session ρ} {id : Int64} (fits : Fits32 id)
    (entry : s.client.callbacks.find id = some t.cb) (outside : s.inside = none)
    (next : s.rest = [(t.told id).1]) {w : World κ ρ} (here : w.session = s) :
    Run (Step server sprintf) w
      [(w, .element (t.told id).1), ({ w with session :=
        { s with rest := [], inside := some (t.told id).2, room := s.client.callbacks.size,
                 invoked := s.invoked ++ [t.told id] } }, .finish)]
      { w with session := ⟨s.client.eraseCall (t.told id).2, [], none, s.client.callbacks.size,
        s.invoked ++ [t.told id]⟩ } := by
  have valid := RpcClient.isResponse_resultResponse id.toInt32 t.result.reparse
  have found : s.client.findDelivery (t.told id).1 = .ok (some (t.told id).2) := by
    have key := RpcClient.toInt64_toInt32 fits
    have found := RpcClient.findDelivery_result valid (key.symm ▸ entry) rfl
    rw [key] at found
    rw [told, Value.reparse_narrow fits]
    exact found
  subst here
  have load := Nat.le_refl w.session.client.callbacks.size
  exact .cons (.element (.deliver outside next found load))
    (.cons (.finish (.finish rfl load)) (.nil _))

variable {server sprintf}

/-- **A call on a quiet connection** reaches its handler, and the result the callback. -/
theorem completes (quiet : w.Quiet) (possible : t.Possible server sprintf w.session.client.id) :
    ∃ trace w', Run (Step server sprintf) w trace w' ∧
      trace.map Prod.snd = t.actions w.session.client.id ∧ w'.Quiet ∧
      w'.session.client.id = w.session.client.id + 1 ∧
      w'.called = w.called ++ [t.asked w.session.client.id] ∧
      w'.session.invoked = w.session.invoked ++ [t.told w.session.client.id] := by
  have sent : w.session.client.sendCall (.object t.members) t.cb = .ok (⟨w.session.client.id + 1,
      w.session.client.callbacks.assign w.session.client.id t.cb⟩,
        .object (t.request w.session.client.id)) := by
    simp only [RpcClient.sendCall, Value.addMember, possible.new]
    rfl
  generalize w.session.client.id = id at possible sent ⊢
  generalize sends : (⟨id + 1, w.session.client.callbacks.assign id t.cb⟩ : RpcClient ρ) = client
    at sent
  obtain ⟨keyed, readable⟩ := sendable_asked possible.call.1 possible.call.2 possible.new id
  obtain ⟨-, readRequest⟩ := bracketed_write readable keyed
  obtain ⟨-, readResponse⟩ := bracketed_response id possible.result.1 possible.result.2
  obtain ⟨members, shape, accepted⟩ := possible.accepted
  have found : members.lookup (ascii "id") = some (Value.int64 id).reparse := by
    rw [Value.reparse_object] at shape
    rw [← Value.object.inj shape, lookup_map_snd, request, List.lookup_append, possible.new]
    rfl
  have made : UserDoneCallback.call ⟨.object members, reply⟩ t.result =
      .ok [.sendResponse (t.response id)] := by
    rw [UserDoneCallback.call, UserDoneCallback.response_eq rfl found]
    rfl
  -- the call
  have called : Step server sprintf w (.call (.object t.members) t.cb) _ := .call (.inl quiet.idle) sent
  rw [quiet.requests, List.nil_append] at called
  -- the request is read
  obtain ⟨asking, b, reads, valid, empty, asks⟩ := run_requests sprintf
    ⟨_, possible.belowServer⟩ (readRequest.trans (congrArg some shape)) accepted
    possible.asks.nonempty
    (w := { w with session := { w.session with client := client },
                   requests := RpcClient.sendRequest sprintf (.object (t.request id)) })
    quiet.input.1 (by rw [quiet.input.2, List.nil_append, possible.asks.whole]; rfl)
    (by rw [quiet.input.2]; exact (frame_ne_nil _).symm) possible.asks.whole.symm quiet.serving
  -- the handler answers
  have answers : Step server sprintf { w with
        session := { w.session with client := client }, input := b, requests := [],
        called := w.called ++ [(t.procedure.callback, ⟨.object members, reply⟩)] }
      (.answer ⟨.object members, reply⟩ t.result) _ :=
    .answer quiet.serving (List.mem_append_right _ (List.mem_singleton_self _)) made
  have bytes : w.responses ++ sendResponses sprintf [.sendResponse (t.response id)] =
      BaseServer.sendResponse sprintf (t.response id) := by
    rw [quiet.responses, List.nil_append, sendResponses, List.flatMap_singleton]
  rw [bytes] at answers
  -- the response is read
  obtain ⟨replying, b', hears, valid', empty', replies⟩ := run_responses server sprintf
    ⟨_, possible.belowClient⟩ readResponse possible.replies.nonempty
    (w := { w with session := { w.session with client := client }, input := b, requests := [],
                   called := w.called ++ [(t.procedure.callback, ⟨.object members, reply⟩)],
                   responses := BaseServer.sendResponse sprintf (t.response id) })
    quiet.idle quiet.inbox.1 (by rw [quiet.inbox.2, List.nil_append, possible.replies.whole]; rfl)
    (by rw [quiet.inbox.2]; exact (frame_ne_nil _).symm) possible.replies.whole.symm
  -- the callback is invoked
  have tells := run_element server sprintf (t := t)
    (s := { w.session with client := client, rest := [(t.told id).1] }) possible.fits
    (by rw [← sends]; exact Table.find_assign_self _ _ _) quiet.idle.2 rfl
    (w := { w with session := { w.session with client := client, rest := [(t.told id).1] },
                   input := b, requests := [],
                   called := w.called ++ [(t.procedure.callback, ⟨.object members, reply⟩)],
                   inbox := b', responses := [] }) rfl
  refine ⟨_, _, .cons called (reads.append (.cons answers (hears.append tells))), ?_, ?_, ?_, ?_, rfl⟩
  · rw [List.map_cons, List.map_append, List.map_cons, List.map_append, asks, replies, actions, asked,
      shape]
    rfl
  · exact ⟨⟨rfl, rfl⟩, rfl, ⟨valid, empty⟩, rfl, ⟨valid', empty'⟩, quiet.serving⟩
  · rw [← sends]
    rfl
  · rw [asked, shape]

end One

end Talk

/-- Each call is possible under the id that it gets. -/
def AllPossible (server : RpcServer κ ν) (sprintf : Double → Bytes) :
    Int64 → List (Talk κ ρ) → Prop
  | _, [] => True
  | id, t :: talks => t.Possible server sprintf id ∧ AllPossible server sprintf (id + 1) talks

/-- What is made of each, under its id. -/
def numbered {α : Type} (f : Talk κ ρ → Int64 → α) : Int64 → List (Talk κ ρ) → List α
  | _, [] => []
  | id, t :: talks => f t id :: numbered f (id + 1) talks

/-- **Calls one after another all complete**: each calls its handler once, with the request,
and its callback once, with the handler's result. -/
theorem calls_complete {server : RpcServer κ ν} {sprintf : Double → Bytes} {talks : List (Talk κ ρ)}
    {w : World κ ρ} (quiet : w.Quiet)
    (possible : AllPossible server sprintf w.session.client.id talks) :
    ∃ trace w', Run (Step server sprintf) w trace w' ∧
      trace.map Prod.snd = (numbered Talk.actions w.session.client.id talks).flatten ∧ w'.Quiet ∧
      w'.called = w.called ++ numbered Talk.asked w.session.client.id talks ∧
      w'.session.invoked = w.session.invoked ++ numbered Talk.told w.session.client.id talks := by
  induction talks generalizing w with
  | nil => exact ⟨[], w, .nil w, rfl, quiet, (List.append_nil _).symm, (List.append_nil _).symm⟩
  | cons t talks ih =>
      obtain ⟨first, others⟩ := possible
      obtain ⟨trace, w', run, actions, quiet', id, called, invoked⟩ := t.completes quiet first
      rw [← id] at others
      obtain ⟨trace', w'', run', actions', quiet'', called', invoked'⟩ := ih quiet' others
      refine ⟨_, w'', run.append run', ?_, quiet'', ?_, ?_⟩
      · rw [List.map_append, actions, actions', id]
        rfl
      · rw [called', called, id, List.append_assoc]
        rfl
      · rw [invoked', invoked, id, List.append_assoc]
        rfl

/-! ### Two calls -/

/-- `s.add(b = 2, a = 1)` without an id. -/
def addMembers : List (Bytes × Value) :=
  [(ascii "jsonrpc", .string (ascii "2.0")), (ascii "method", .string (ascii "s.add")),
    (ascii "params", .object [(ascii "b", .int32 2), (ascii "a", .int32 1)])]

/-- Both messages are cut behind four bytes. -/
def addTalk (id : Int64) : Talk Unit Unit :=
  let request := RpcClient.sendRequest Writer.noDoubles
    (.object (addMembers ++ [(ascii "id", .int64 id)]))
  let response := BaseServer.sendResponse Writer.noDoubles
    (UserDoneCallback.resultResponse (Value.int64 id).reparse (.int32 3))
  ⟨addMembers, (), addProcedure, .int32 3, [request.take 4, request.drop 4],
    [response.take 4, response.drop 4]⟩

theorem addMembers_accepted (i : Int32) :
    Accepted demoServer (addMembers ++ [(ascii "id", .int32 i)]) addProcedure := by
  refine (isCall_iff_accepted demoServer_distinctParams).mp ⟨⟨demoService, ascii "add", ?_, rfl⟩, ?_⟩
  · refine ⟨⟨.int32 i, rfl, ?_⟩, rfl, ⟨ascii "s", rfl, by decide, by decide, rfl⟩, ?_⟩
    · exact List.mem_cons_of_mem _ List.mem_cons_self
    · rw [List.map_append]
      show [ascii "jsonrpc", ascii "method", ascii "params", ascii "id"] ⊆ _
      decide
  · show Procedure.ParamsMatch _ (some (.object [(ascii "b", .int32 2), (ascii "a", .int32 1)]))
    exact ⟨by decide, by decide, by decide⟩

theorem addTalk_possible {id : Int64} (early : id = 0 ∨ id = 1) :
    (addTalk id).Possible demoServer Writer.noDoubles id where
  new := show addMembers.lookup (ascii "id") = none by decide
  call := by
    show (Value.object addMembers).WellKeyed ∧ Readable Writer.noDoubles (.object addMembers)
    have names : ∀ m ∈ addMembers, m.1.all (fun c => decide (Plain c)) = true :=
      List.all_eq_true.mp (by decide)
    have params : ∀ m ∈ [(ascii "b", Value.int32 2), (ascii "a", .int32 1)],
        m.1.all (fun c => decide (Plain c)) = true := List.all_eq_true.mp (by decide)
    refine ⟨parse_wellKeyed (s := Writer.write Writer.noDoubles (.object addMembers))
      (by decide +kernel), .object (fun m mem => plain_of_all (names m mem)) ?_⟩
    have readable : Readable Writer.noDoubles
        (.object [(ascii "b", .int32 2), (ascii "a", .int32 1)]) :=
      .object (fun m mem => plain_of_all (params m mem)) (by simpa using ⟨.int32 2, .int32 1⟩)
    simpa [addMembers] using ⟨.string _, .string _, readable⟩
  result := ⟨.int32 3, .int32 3⟩
  accepted := ⟨_, by rcases early with rfl | rfl <;> decide +kernel, addMembers_accepted id.toInt32⟩
  fits := by rcases early with rfl | rfl <;> decide
  asks := ⟨by rcases early with rfl | rfl <;> decide +kernel, by simp [addTalk, Talk.request]⟩
  replies := ⟨by rcases early with rfl | rfl <;> decide +kernel, by simp [addTalk, Talk.response]⟩
  belowServer := by rcases early with rfl | rfl <;> decide +kernel
  belowClient := by rcases early with rfl | rfl <;> decide +kernel

theorem quiet_start {κ ρ : Type} : (start : World κ ρ).Quiet :=
  ⟨⟨rfl, rfl⟩, rfl, ⟨Buffer.valid_fresh, Buffer.readable_fresh⟩, rfl,
    ⟨Buffer.valid_fresh, Buffer.readable_fresh⟩, rfl⟩

/-- Two calls from the start, both read in two pieces and answered in two. -/
theorem two_calls_complete : ∃ (trace : List (World Unit Unit × Action Unit)) (w : World Unit Unit),
    Run (Step demoServer Writer.noDoubles) start trace w ∧
      trace.map Prod.snd = (addTalk 0).actions 0 ++ ((addTalk 1).actions 1 ++ []) ∧ w.Quiet ∧
      w.called = [(addTalk 0).asked 0, (addTalk 1).asked 1] ∧
      w.session.invoked = [(addTalk 0).told 0, (addTalk 1).told 1] := by
  have possible : AllPossible demoServer Writer.noDoubles 0 [addTalk 0, addTalk 1] :=
    ⟨addTalk_possible (.inl rfl), addTalk_possible (.inr rfl), trivial⟩
  exact calls_complete quiet_start possible

end LaliRpc.Zrpc.World
