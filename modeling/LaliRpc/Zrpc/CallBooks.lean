/-
# Zrpc.CallBooks — every callback gets a result of its own call

Whatever is sent meanwhile, however the two streams are cut, whenever and how often the
handlers answer: a call reaches the handler it is for at most once, and its callback is
invoked at most once, with a result that was given for this very call.

`Books` are what a run has asked and answered, and `Inv` what every step keeps of them. The
bytes on the way are `Channel`s, so what is handed on is among what was sent; the client's
entries are a `Ledger` that is tracked.
-/
import LaliRpc.Zrpc.CallCompletes

namespace LaliRpc.Zrpc.World

open LaliRpc.Jackson LaliRpc.Jackson.Reader LaliRpc.Jackson.Grammar
open LaliRpc.Net LaliRpc.Theory LaliRpc.Theory.Framing

set_option autoImplicit false

variable {κ ν ρ : Type}

/-! ## The books of a run -/

/-- What a response is read as. -/
def answered (done : UserDoneCallback) (result : Value) : Option Value :=
  (done.response result).toOption.map Value.reparse

/-- The calls made, the results given, and what the texts that were sent are read as. -/
structure Books (ρ : Type) where
  calls : List (Value × ρ)
  answers : List (UserDoneCallback × Value)
  requests : List Value
  responses : List Value
  ledger : RpcClient.Ledger ρ

namespace Books

def empty : Books ρ := ⟨[], [], [], [], .empty⟩

def record (books : Books ρ) : Action ρ → Books ρ
  | .call call cb => { books with
      calls := books.calls ++ [(call, cb)],
      requests := books.requests ++ (asked books.calls.length call).toList,
      ledger := books.ledger.record (.sendCall call cb) }
  | .notify notify => { books with requests := books.requests ++ [notify.reparse] }
  | .answer done result => { books with
      answers := books.answers ++ [(done, result)],
      responses := books.responses ++ (answered done result).toList }
  | .element response => { books with ledger := books.ledger.record (.element response) }
  | .request _ | .response _ | .finish => books

def of (trace : List (World κ ρ × Action ρ)) : Books ρ :=
  (trace.map Prod.snd).foldl record empty

end Books

/-- What is given to the client and to the done callbacks: values without repeated names,
that can be read back, and notifications that are no calls. -/
def Proper (sprintf : Double → Bytes) : Action ρ → Prop
  | .call call _ => call.WellKeyed ∧ Readable sprintf call
  | .notify notify => notify.WellKeyed ∧ Readable sprintf notify ∧
      ∃ members, notify = .object members ∧ members.lookup (ascii "id") = none
  | .answer _ result => result.WellKeyed ∧ Readable sprintf result
  | .request _ | .response _ | .element _ | .finish => True

/-- The handler was called for one of the client's calls, which it accepts. -/
def Called (server : RpcServer κ ν) (books : Books ρ) (c : κ × UserDoneCallback) : Prop :=
  ∃ n call cb members p, books.calls[n]? = some (call, cb) ∧ asked n call = some (.object members) ∧
    c.2 = ⟨.object members, reply⟩ ∧ Accepted server members p ∧ c.1 = p.callback

/-- The response carries a result that was given for the n-th call. -/
def Answered (books : Books ρ) (n : Nat) (result response : Value) : Prop :=
  ∃ call cb done, books.calls[n]? = some (call, cb) ∧ asked n call = some done.request ∧
    (done, result) ∈ books.answers ∧
    response = UserDoneCallback.resultResponse (Value.int64 (Int64.ofNat n)).reparse result.reparse

/-! ## What every step keeps -/

structure Inv (server : RpcServer κ ν) (books : Books ρ) (w : World κ ρ) : Prop where
  tracks : RpcClient.Tracks w.session books.ledger
  issued : books.ledger.issued.map Prod.snd = books.calls.map Prod.snd
  ids : books.requests.filterMap idOf =
    (List.range books.calls.length).map fun n => (Value.int64 (Int64.ofNat n)).reparse
  /-- A text of the client is a call or, without an id, a notification. -/
  requests : ∀ v ∈ books.requests, ∃ members, v = .object members ∧
    (members.lookup (ascii "id") = none ∨
      ∃ n call cb, books.calls[n]? = some (call, cb) ∧ asked n call = some v)
  input : w.input.Valid
  up : ∃ handed, Channel books.requests handed (w.input.readable ++ w.requests) ∧
    (w.called.map fun c => c.2.request).Sublist handed
  called : ∀ c ∈ w.called, Called server books c
  answers : ∀ a ∈ books.answers, ∃ callback, (callback, a.1) ∈ w.called
  responses : ∀ v ∈ books.responses, ∃ n result, Answered books n result v
  inbox : w.inbox.Valid
  down : ∃ handed, Channel books.responses handed (w.inbox.readable ++ w.responses)
  rest : ∀ v ∈ w.session.rest, v ∈ books.responses
  invoked : ∀ i ∈ w.session.invoked, i.1 ∈ books.responses

section Books

variable {server : RpcServer κ ν} {books books' : Books ρ}

/-- Books with more calls and answers. -/
structure Extends (books books' : Books ρ) : Prop where
  calls : books.calls <+: books'.calls
  answers : books.answers ⊆ books'.answers

theorem Extends.call (more : Extends books books') {n : Nat} {c : Value × ρ}
    (made : books.calls[n]? = some c) : books'.calls[n]? = some c := by
  obtain ⟨later, same⟩ := more.calls
  rw [← same, List.getElem?_append_left (List.getElem?_eq_some_iff.mp made).1]
  exact made

theorem Called.mono {c : κ × UserDoneCallback} (called : Called server books c)
    (more : Extends books books') : Called server books' c := by
  obtain ⟨n, call, cb, members, p, made, rest⟩ := called
  exact ⟨n, call, cb, members, p, more.call made, rest⟩

theorem Answered.mono {n : Nat} {result response : Value} (answered : Answered books n result response)
    (more : Extends books books') : Answered books' n result response := by
  obtain ⟨call, cb, done, made, request, given, same⟩ := answered
  exact ⟨call, cb, done, more.call made, request, more.answers given, same⟩

end Books

section Kept

variable {server : RpcServer κ ν} {sprintf : Double → Bytes} {books : Books ρ} {w : World κ ρ}

theorem inv_start : Inv server (Books.empty : Books ρ) (start : World κ ρ) where
  tracks := .start
  issued := rfl
  ids := rfl
  requests _ mem := absurd mem List.not_mem_nil
  input := Buffer.valid_fresh
  up := ⟨[], by
    show Channel [] [] (Buffer.fresh.readable ++ [])
    rw [Buffer.readable_fresh]
    exact .start, List.Sublist.refl _⟩
  called _ mem := absurd mem List.not_mem_nil
  answers _ mem := absurd mem List.not_mem_nil
  responses _ mem := absurd mem List.not_mem_nil
  inbox := Buffer.valid_fresh
  down := ⟨[], by
    show Channel [] [] (Buffer.fresh.readable ++ [])
    rw [Buffer.readable_fresh]
    exact .start⟩
  rest _ mem := absurd mem List.not_mem_nil
  invoked _ mem := absurd mem List.not_mem_nil

theorem Inv.length (inv : Inv server books w) :
    books.ledger.issued.length = books.calls.length := by
  simpa using congrArg List.length inv.issued

/-- A call is sent under its number. -/
theorem Inv.sent (inv : Inv server books w) {call request : Value} {cb : ρ} {client : RpcClient ρ}
    (sent : w.session.client.sendCall call cb = .ok (client, request)) :
    call.addMember (ascii "id") (.int64 (Int64.ofNat books.calls.length)) = .ok request := by
  obtain ⟨added, ok, result⟩ := except_bind_eq_ok.mp sent
  obtain ⟨-, rfl⟩ := Prod.mk.inj (Except.ok.inj result)
  rwa [inv.tracks.next, inv.length] at ok

theorem Inv.call (inv : Inv server books w) (few : books.calls.length < 2 ^ 63)
    {call request : Value} {cb : ρ} {client : RpcClient ρ}
    (keyed : call.WellKeyed) (readable : Readable sprintf call)
    (sent : w.session.client.sendCall call cb = .ok (client, request)) :
    Inv server (books.record (.call call cb)) { w with
      session := { w.session with client := client },
      requests := w.requests ++ RpcClient.sendRequest sprintf request } := by
  have added := inv.sent sent
  have isAsked : asked books.calls.length call = some request.reparse := by
    rw [asked, added]
    rfl
  obtain ⟨members, rfl, new, added', -⟩ := asked_eq_some isAsked
  obtain rfl := Except.ok.inj (added.symm.trans added')
  obtain ⟨keyed', readable'⟩ := sendable_asked keyed readable new (Int64.ofNat books.calls.length)
  obtain ⟨text, read⟩ := bracketed_write readable' keyed'
  have more : Extends books (books.record (.call (.object members) cb)) :=
    ⟨List.prefix_append _ _, List.Subset.refl _⟩
  have requests' : (books.record (.call (.object members) cb)).requests =
      books.requests ++ [(Value.object
        (members ++ [(ascii "id", Value.int64 (Int64.ofNat books.calls.length))])).reparse] := by
    rw [Books.record, isAsked]
    rfl
  refine ⟨inv.tracks.sendCall (inv.length ▸ few) sent, ?_, ?_, ?_, inv.input, ?_,
    fun c mem => (inv.called c mem).mono more, inv.answers, fun v mem => ?_, inv.inbox, inv.down,
    inv.rest, inv.invoked⟩
  · show (books.ledger.issued ++ [(Int64.ofNat books.ledger.issued.length, cb)]).map Prod.snd =
      (books.calls ++ [(Value.object members, cb)]).map Prod.snd
    rw [List.map_append, List.map_append, inv.issued]
    rfl
  · show (books.record (.call (.object members) cb)).requests.filterMap idOf =
      (List.range (books.calls ++ [(Value.object members, cb)]).length).map _
    rw [requests', List.filterMap_append, inv.ids, List.length_append, List.length_singleton,
      List.range_succ, List.map_append, List.filterMap_cons, idOf_asked isAsked]
    rfl
  · intro v mem
    rw [requests', List.mem_append, List.mem_singleton] at mem
    rcases mem with old | rfl
    · obtain ⟨ms, shape, kind⟩ := inv.requests v old
      refine ⟨ms, shape, kind.imp_right ?_⟩
      rintro ⟨n, call, cb', made, request⟩
      exact ⟨n, call, cb', more.call made, request⟩
    · refine ⟨_, Value.reparse_object _, .inr ⟨books.calls.length, _, cb, ?_, isAsked⟩⟩
      exact List.getElem?_concat_length
  · obtain ⟨handed, channel, sublist⟩ := inv.up
    refine ⟨handed, ?_, sublist⟩
    have longer := channel.send text
    rw [List.filterMap_cons, read, List.filterMap_nil, List.append_assoc, ← requests'] at longer
    exact longer
  · obtain ⟨n, result, answered⟩ := inv.responses v mem
    exact ⟨n, result, answered.mono more⟩

theorem Inv.notify (inv : Inv server books w) {members : List (Bytes × Value)}
    (keyed : (Value.object members).WellKeyed) (readable : Readable sprintf (.object members))
    (noId : members.lookup (ascii "id") = none) :
    Inv server (books.record (.notify (.object members))) { w with
      requests := w.requests ++ RpcClient.sendRequest sprintf (.object members) } := by
  obtain ⟨text, read⟩ := bracketed_write readable keyed
  have none' : (members.map fun m => (m.1, m.2.reparse)).lookup (ascii "id") = none := by
    rw [lookup_map_snd, noId]
    rfl
  refine ⟨inv.tracks, inv.issued, ?_, ?_, inv.input, ?_, inv.called, inv.answers, inv.responses,
    inv.inbox, inv.down, inv.rest, inv.invoked⟩
  · show (books.requests ++ [(Value.object members).reparse]).filterMap idOf = _
    rw [List.filterMap_append, inv.ids, Value.reparse_object, List.filterMap_cons, idOf, none',
      List.filterMap_nil, List.append_nil]
    rfl
  · intro v mem
    rcases List.mem_append.mp mem with old | new
    · exact inv.requests v old
    · rw [List.mem_singleton.mp new, Value.reparse_object]
      exact ⟨_, rfl, .inl none'⟩
  · obtain ⟨handed, channel, sublist⟩ := inv.up
    refine ⟨handed, ?_, sublist⟩
    have longer := channel.send text
    rw [List.filterMap_cons, read, List.filterMap_nil, List.append_assoc] at longer
    exact longer

/-- A handler is called at most for the text that is new. -/
theorem Inv.calls (inv : Inv server books w) {p left : Bytes} {out : List Bytes}
    (outcome : Outcome p out left) (sent : ∀ v ∈ out.filterMap value?, v ∈ books.requests) :
    (∀ c ∈ Zrpc.calls (out.flatMap fun json => (server.handleRequest json reply).events),
      Called server books c) ∧
      ((Zrpc.calls (out.flatMap fun json => (server.handleRequest json reply).events)).map
        fun c => c.2.request).Sublist (out.filterMap value?) := by
  cases outcome with
  | keeps | skips => exact ⟨fun c mem => absurd mem List.not_mem_nil, List.Sublist.refl _⟩
  | @hands i n found declares =>
      rw [List.flatMap_singleton]
      rw [List.filterMap_cons, List.filterMap_nil] at sent ⊢
      cases read : value? (p.drop (i + 2)) with
      | none =>
          rw [calls_unread server read]
          exact ⟨fun c mem => absurd mem List.not_mem_nil, List.Sublist.refl _⟩
      | some v =>
          rw [read] at sent
          obtain ⟨members, rfl, kind⟩ := inv.requests v (sent v (List.mem_singleton_self v))
          rcases calls_object server read with none | ⟨p, accepted, one⟩
          · rw [none]
            exact ⟨fun c mem => absurd mem List.not_mem_nil, List.nil_sublist _⟩
          · rw [one]
            refine ⟨List.forall_mem_singleton.mpr ?_, List.Sublist.refl _⟩
            rcases kind with noId | ⟨n, call, cb, made, request⟩
            · obtain ⟨id, found⟩ := accepted.hasId
              rw [noId] at found
              cases found
            · exact ⟨n, call, cb, members, p, made, request, rfl, accepted, rfl⟩

theorem Inv.request (inv : Inv server books w) {got rest : Bytes} (wire : w.requests = got ++ rest)
    (serving : Bool) :
    Inv server books { w with
      input := (server.onMessage (w.input.readFd got)).state,
      requests := rest,
      called := w.called ++ Zrpc.calls (server.onMessage (w.input.readFd got)).events,
      serving := serving } := by
  obtain ⟨state, events⟩ := onMessage_handles server (w.input.readFd got)
  have outcome : Outcome (w.input.readable ++ got)
      (BaseServer.requests.run (w.input.readFd got)).events
      (BaseServer.requests.run (w.input.readFd got)).state.readable :=
    BaseServer.lines.outcome w.input got inv.input
  have valid : (BaseServer.requests.run (w.input.readFd got)).state.Valid :=
    BaseServer.lines.ok w.input got inv.input
  obtain ⟨handed, channel, sublist⟩ := inv.up
  rw [wire, ← List.append_assoc] at channel
  have next := channel.read outcome
  have new := inv.calls outcome fun v mem => next.sublist.subset (List.mem_append_right handed mem)
  rw [← events] at new
  rw [← state] at valid next
  refine ⟨inv.tracks, inv.issued, inv.ids, inv.requests, valid, ?_, ?_, fun a mem => ?_,
    inv.responses, inv.inbox, inv.down, inv.rest, inv.invoked⟩
  · refine ⟨_, next, ?_⟩
    rw [List.map_append]
    exact sublist.append new.2
  · exact List.forall_mem_append.mpr ⟨inv.called, new.1⟩
  · obtain ⟨callback, before⟩ := inv.answers a mem
    exact ⟨callback, List.mem_append_left _ before⟩

/-- The response to a call. -/
theorem Inv.answer (inv : Inv server books w) {callback : κ} {done : UserDoneCallback}
    {result : Value} {effects : List DoneEffect} (keyed : result.WellKeyed)
    (readable : Readable sprintf result) (mem : (callback, done) ∈ w.called)
    (made : done.call result = .ok effects) :
    Inv server (books.record (.answer done result)) { w with
      responses := w.responses ++ sendResponses sprintf effects } := by
  obtain ⟨n, call, cb, members, p, issued, request, shape, -, -⟩ := inv.called _ mem
  obtain rfl : done = ⟨.object members, reply⟩ := shape
  have found : members.lookup (ascii "id") = some (Value.int64 (Int64.ofNat n)).reparse :=
    idOf_asked request
  have response : UserDoneCallback.response ⟨.object members, reply⟩ result = .ok _ :=
    UserDoneCallback.response_eq rfl found result
  obtain rfl : effects = [.sendResponse (UserDoneCallback.resultResponse
      (Value.int64 (Int64.ofNat n)).reparse result)] := by
    rw [UserDoneCallback.call, response] at made
    exact (Except.ok.inj made).symm
  obtain ⟨text, read⟩ := bracketed_response (Int64.ofNat n) keyed readable
  have more : Extends books (books.record (.answer ⟨.object members, reply⟩ result)) :=
    ⟨List.prefix_rfl, List.subset_append_left _ _⟩
  have responses' : (books.record (.answer ⟨.object members, reply⟩ result)).responses =
      books.responses ++ [UserDoneCallback.resultResponse (Value.int64 (Int64.ofNat n)).reparse
        result.reparse] := by
    show books.responses ++ (answered _ _).toList = _
    rw [answered, response]
    simp [Except.toOption, UserDoneCallback.resultResponse, Value.reparse_reparse_int64]
  refine ⟨inv.tracks, inv.issued, inv.ids, inv.requests, inv.input, inv.up,
    fun c mem => (inv.called c mem).mono more, ?_, fun v mem => ?_, inv.inbox, ?_, fun v mem => ?_,
    fun i mem => ?_⟩
  · exact List.forall_mem_append.mpr ⟨inv.answers, List.forall_mem_singleton.mpr ⟨callback, mem⟩⟩
  · rw [responses', List.mem_append, List.mem_singleton] at mem
    rcases mem with old | rfl
    · obtain ⟨m, result', answered⟩ := inv.responses v old
      exact ⟨m, result', answered.mono more⟩
    · exact ⟨n, result, call, cb, _, issued, request,
        List.mem_append_right _ (List.mem_singleton_self _), rfl⟩
  · obtain ⟨handed, channel⟩ := inv.down
    refine ⟨handed, ?_⟩
    have longer := channel.send text
    rw [List.filterMap_cons, read, List.filterMap_nil, List.append_assoc] at longer
    rw [responses']
    have bytes : sendResponses sprintf [.sendResponse (UserDoneCallback.resultResponse
        (Value.int64 (Int64.ofNat n)).reparse result)] = frame (Writer.write sprintf
          (UserDoneCallback.resultResponse (Value.int64 (Int64.ofNat n)).reparse result)) :=
      List.append_nil _
    rw [bytes]
    exact longer
  · rw [responses']
    exact List.mem_append_left _ (inv.rest v mem)
  · rw [responses']
    exact List.mem_append_left _ (inv.invoked i mem)

/-- What a read leaves of the way from the server to the client. -/
theorem Inv.heard (inv : Inv server books w) {got rest : Bytes} (wire : w.responses = got ++ rest) :
    let ended := RpcClient.responses.run (w.inbox.readFd got)
    ended.state.Valid ∧ ∃ handed, Channel books.responses handed (ended.state.readable ++ rest) ∧
      ∀ json ∈ ended.events, ∀ v, value? json = some v → v ∈ books.responses := by
  intro ended
  obtain ⟨handed, channel⟩ := inv.down
  rw [wire, ← List.append_assoc] at channel
  have next := channel.read (RpcClient.lines.outcome w.inbox got inv.inbox)
  refine ⟨RpcClient.lines.ok w.inbox got inv.inbox, _, next, fun json mem v read => ?_⟩
  exact next.sublist.subset (List.mem_append_right _ (List.mem_filterMap.mpr ⟨json, mem, read⟩))

theorem Inv.wait (inv : Inv server books w) {got rest : Bytes} (wire : w.responses = got ++ rest) :
    Inv server books { w with
      inbox := (RpcClient.responses.run (w.inbox.readFd got)).state, responses := rest } := by
  obtain ⟨valid, handed, channel, -⟩ := inv.heard wire
  exact ⟨inv.tracks, inv.issued, inv.ids, inv.requests, inv.input, inv.up, inv.called, inv.answers,
    inv.responses, valid, ⟨handed, channel⟩, inv.rest, inv.invoked⟩

/-- The elements of a text are what was sent. -/
theorem Inv.elements (inv : Inv server books w) {json : Bytes} {elements : List Value}
    (own : ∀ v, value? json = some v → v ∈ books.responses)
    (taken : RpcClient.responseElements json = .ok elements) : ∀ v ∈ elements, v ∈ books.responses := by
  cases parsed : parse json with
  | error fault =>
      rw [RpcClient.responseElements, parsed] at taken
      cases fault <;> cases taken
  | ok v =>
      have mem := own v (value?_eq_some.mpr parsed)
      obtain ⟨n, result, call, cb, done, -, -, -, rfl⟩ := inv.responses v mem
      rw [RpcClient.responseElements, parsed] at taken
      obtain rfl := Except.ok.inj taken
      exact List.forall_mem_singleton.mpr mem

theorem Inv.response (inv : Inv server books w) {got rest json : Bytes}
    {session : RpcClient.Session ρ} (wire : w.responses = got ++ rest)
    (text : (RpcClient.responses.run (w.inbox.readFd got)).events = [json])
    (taken : w.session.Step (.receive json) session) :
    Inv server books { w with
      session := session,
      inbox := (RpcClient.responses.run (w.inbox.readFd got)).state, responses := rest } := by
  obtain ⟨valid, handed, channel, own⟩ := inv.heard wire
  cases taken with
  | receive idle taken =>
      have elements := inv.elements (own json (text ▸ List.mem_singleton_self json)) taken
      exact ⟨inv.tracks.setRest _, inv.issued, inv.ids, inv.requests, inv.input, inv.up, inv.called,
        inv.answers, inv.responses, valid, ⟨handed, channel⟩, elements, inv.invoked⟩
  | refuse idle refused =>
      exact ⟨inv.tracks, inv.issued, inv.ids, inv.requests, inv.input, inv.up, inv.called,
        inv.answers, inv.responses, valid, ⟨handed, channel⟩, inv.rest, inv.invoked⟩

theorem Inv.element (inv : Inv server books w) (few : books.calls.length < 2 ^ 63) {response : Value}
    {session : RpcClient.Session ρ} (taken : w.session.Step (.element response) session) :
    Inv server (books.record (.element response)) { w with session := session } := by
  have tracks := inv.tracks.step (inv.length ▸ few) taken
  have issued : (books.ledger.record (.element response)).issued.map Prod.snd =
      books.calls.map Prod.snd := by
    rw [← inv.issued]
    exact congrArg _ (RpcClient.Ledger.issued_answer books.ledger response)
  have later : ∀ v ∈ session.rest, v ∈ books.responses := by
    cases taken with
    | deliver outside next found | ignore outside next unknown =>
        exact fun v mem => inv.rest v (next ▸ List.mem_cons_of_mem _ mem)
    | drop outside next refused => exact fun v mem => absurd mem List.not_mem_nil
  have invoked : ∀ i ∈ session.invoked, i.1 ∈ books.responses := by
    cases taken with
    | deliver outside next found =>
        refine List.forall_mem_append.mpr ⟨inv.invoked, List.forall_mem_singleton.mpr ?_⟩
        exact inv.rest response (next ▸ List.mem_cons_self)
    | ignore outside next unknown | drop outside next refused => exact inv.invoked
  exact ⟨tracks, issued, inv.ids, inv.requests, inv.input, inv.up, inv.called, inv.answers,
    inv.responses, inv.inbox, inv.down, later, invoked⟩

theorem Inv.finish (inv : Inv server books w) {session : RpcClient.Session ρ}
    (taken : w.session.Step .finish session) : Inv server books { w with session := session } := by
  cases taken with
  | finish inside =>
      exact ⟨inv.tracks.finish inside, inv.issued, inv.ids, inv.requests, inv.input, inv.up,
        inv.called, inv.answers, inv.responses, inv.inbox, inv.down, inv.rest, inv.invoked⟩

/-- Every step keeps the books. -/
theorem Inv.step (inv : Inv server books w) (few : books.calls.length < 2 ^ 63) {w' : World κ ρ}
    {action : Action ρ} (proper : Proper sprintf action) (taken : Step server sprintf w action w') :
    Inv server (books.record action) w' := by
  cases taken with
  | call running sent => exact inv.call few proper.1 proper.2 sent
  | notify running =>
      obtain ⟨keyed, readable, members, rfl, noId⟩ := proper
      exact inv.notify keyed readable noId
  | request serving nonempty wire => exact inv.request wire _
  | answer serving mem made => exact inv.answer proper.1 proper.2 mem made
  | wait idle nonempty wire nothing caught => exact inv.wait wire
  | response nonempty wire text taken => exact inv.response wire text taken
  | element taken => exact inv.element few taken
  | finish taken => exact inv.finish taken

end Kept

section Runs

variable {server : RpcServer κ ν} {sprintf : Double → Bytes}
  {trace : List (World κ ρ × Action ρ)} {w : World κ ρ}

theorem Books.calls_record (books : Books ρ) (action : Action ρ) :
    books.calls <+: (books.record action).calls := by
  cases action with
  | call call cb => exact List.prefix_append _ _
  | notify | request | answer | response | element | finish => exact List.prefix_rfl

theorem inv_of_run (run : Run (Step server sprintf) start trace w)
    (proper : ∀ e ∈ trace, Proper sprintf e.2) (few : (Books.of trace).calls.length < 2 ^ 63) :
    Inv server (Books.of trace) w := by
  have both : Run (fun w a w' => Step server sprintf w a w' ∧ Proper sprintf a) start trace w :=
    run.constrained proper
  have kept := both.simulates Books.record
    (R := fun w books => books.calls.length < 2 ^ 63 → Inv server books w) (a := Books.empty)
    (fun w books action w' inv taken few =>
      have few' := Nat.lt_of_le_of_lt (books.calls_record action).length_le few
      (inv few').step few' taken.2 taken.1)
    fun _ => inv_start
  exact kept few

theorem ids_distinct {n : Nat} (few : n < 2 ^ 63) :
    ((List.range n).map fun k => (Value.int64 (Int64.ofNat k)).reparse).Nodup := by
  refine List.nodup_range.map_on fun a ha b hb same => ?_
  rw [List.mem_range] at ha hb
  exact RpcClient.Tracks.ofNat_injOn (by omega) (by omega) (reparse_int64_injective same)

/-- **A call reaches its handler at most once**: the handlers called are those of the client's
calls, in the order of the calls, no call twice. -/
theorem handlers_called (run : Run (Step server sprintf) start trace w)
    (proper : ∀ e ∈ trace, Proper sprintf e.2) (few : (Books.of trace).calls.length < 2 ^ 63) :
    (∀ c ∈ w.called, Called server (Books.of trace) c) ∧
      (w.called.map fun c => c.2.request).Sublist (Books.of trace).requests ∧
      (w.called.map fun c => idOf c.2.request).Nodup := by
  have inv := inv_of_run run proper few
  obtain ⟨handed, channel, sublist⟩ := inv.up
  have all := sublist.trans channel.sublist
  refine ⟨inv.called, all, ?_⟩
  have named : (w.called.map fun c => c.2.request).filterMap idOf =
      w.called.filterMap fun c => idOf c.2.request := List.filterMap_map
  have ids := all.filterMap idOf
  rw [inv.ids, named] at ids
  -- every call has an id
  have every : w.called.map (fun c => idOf c.2.request) =
      (w.called.filterMap fun c => idOf c.2.request).map some := by
    rw [List.map_filterMap_some_eq_filter_map_isSome]
    refine (List.filter_eq_self.mpr fun id mem => ?_).symm
    obtain ⟨c, called, rfl⟩ := List.mem_map.mp mem
    obtain ⟨n, call, cb, members, p, -, request, shape, -⟩ := inv.called c called
    rw [shape, idOf_asked request]
    rfl
  rw [every]
  exact ((ids_distinct few).sublist ids).map (Option.some_injective Value)

/-- One call, answered. -/
theorem one_call : ∃ (trace : List (World Unit Unit × Action Unit)) (w : World Unit Unit),
    Run (Step demoServer Writer.noDoubles) start trace w ∧
      (∀ e ∈ trace, Proper Writer.noDoubles e.2) ∧ (Books.of trace).calls.length < 2 ^ 63 ∧
      w.called = [(addTalk 0).asked 0] ∧ w.session.invoked = [(addTalk 0).told 0] := by
  have possible : (addTalk 0).Possible demoServer Writer.noDoubles 0 := addTalk_possible (.inl rfl)
  obtain ⟨trace, w, run, actions, -, -, called, invoked⟩ :=
    (addTalk 0).completes quiet_start possible
  refine ⟨trace, w, run, fun e mem => ?_, ?_, called, invoked⟩
  · have action : e.2 ∈ (addTalk 0).actions 0 := actions ▸ List.mem_map_of_mem mem
    have all : ∀ a ∈ (addTalk 0).actions 0, Proper Writer.noDoubles a := by
      simp only [Talk.actions, addTalk, List.map_cons, List.map_nil, List.cons_append, List.nil_append,
        List.forall_mem_cons]
      exact ⟨possible.call, trivial, trivial, possible.result, trivial, trivial, trivial, trivial,
        List.forall_mem_nil _⟩
    exact all _ action
  · rw [Books.of, actions]
    show 1 < 2 ^ 63
    decide

/-- The handler of `s.add` is called once. -/
theorem one_handler_called : ∃ (trace : List (World Unit Unit × Action Unit)) (w : World Unit Unit),
    Run (Step demoServer Writer.noDoubles) start trace w ∧ w.called = [(addTalk 0).asked 0] ∧
      (∀ c ∈ w.called, Called demoServer (Books.of trace) c) ∧
      (w.called.map fun c => c.2.request).Sublist (Books.of trace).requests ∧
      (w.called.map fun c => idOf c.2.request).Nodup := by
  obtain ⟨trace, w, run, proper, few, called, -⟩ := one_call
  exact ⟨trace, w, run, called, handlers_called run proper few⟩

/-- The callback of the n-th call was invoked with a result that its own handler gave. -/
def Told (books : Books ρ) (w : World κ ρ) (i : Value × RpcClient.Delivery ρ) : Prop :=
  ∃ n call c result, books.calls[n]? = some (call, i.2.cb) ∧ i.2.id = Int64.ofNat n ∧
    c ∈ w.called ∧ asked n call = some c.2.request ∧ (c.2, result) ∈ books.answers ∧
    i.2.response = result.reparse ∧ i.2.isError = false ∧ i.2.isTimeout = false

/-- **A callback is invoked at most once, with a result of its own call.** -/
theorem callbacks_answered (run : Run (Step server sprintf) start trace w)
    (proper : ∀ e ∈ trace, Proper sprintf e.2) (few : (Books.of trace).calls.length < 2 ^ 63) :
    (∀ i ∈ w.session.invoked, Told (Books.of trace) w i) ∧
      (w.session.invoked.map fun i => i.2.id).Nodup := by
  have inv := inv_of_run run proper few
  have once := inv.tracks.once
  rw [← inv.tracks.invoked, List.map_map] at once
  refine ⟨fun i mem => ?_, once⟩
  obtain ⟨n, result, call, cb, done, made, request, given, same⟩ :=
    inv.responses i.1 (inv.invoked i mem)
  obtain ⟨issued, answers⟩ := inv.tracks.own i mem
  obtain ⟨callback, called⟩ := inv.answers _ given
  -- the response carries the number of the call
  obtain ⟨members, j, shape, valid, id⟩ := RpcClient.isResponse_of_answersCall answers.own
  obtain rfl : _ = members := Value.object.inj (same.symm.trans shape)
  have read : (Value.int64 (Int64.ofNat n)).reparse = .int32 j := Option.some.inj valid.id
  have number : i.2.id = Int64.ofNat n := by
    by_cases fits : Fits32 (Int64.ofNat n)
    · rw [Value.reparse_narrow fits] at read
      rw [← id, ← Value.int32.inj read, RpcClient.toInt64_toInt32 fits]
    · rw [Value.reparse_wide fits] at read
      cases read
  -- and the callback under that number is the one of the call
  obtain ⟨m, entry⟩ := List.mem_iff_getElem?.mp issued
  have small := (List.getElem?_eq_some_iff.mp entry).1
  have small' := (List.getElem?_eq_some_iff.mp made).1
  have first : ((Books.of trace).ledger.issued.map Prod.fst)[m]? = some i.2.id := by
    rw [List.getElem?_map, entry]
    rfl
  have second : ((Books.of trace).ledger.issued.map Prod.snd)[m]? = some i.2.cb := by
    rw [List.getElem?_map, entry]
    rfl
  rw [inv.tracks.ids, List.getElem?_map, List.getElem?_range small, number] at first
  rw [inv.length] at small
  obtain rfl : m = n := RpcClient.Tracks.ofNat_injOn (by omega) (by omega) (Option.some.inj first)
  rw [inv.issued, List.getElem?_map, made] at second
  obtain rfl : cb = i.2.cb := Option.some.inj second
  -- which has a result and no error
  have result' : i.1.findMember (ascii "result") = .ok (some result.reparse) := by
    rw [same]
    rfl
  have noError : i.2.isError = false := by
    refine Bool.eq_false_of_not_eq_true fun error => ?_
    rw [(answers.error error).1] at result'
    cases result'
  rw [answers.result noError] at result'
  exact ⟨m, call, (callback, done), result, made, number, called, request, given,
    Option.some.inj (Except.ok.inj result'), noError, answers.inTime⟩

/-- Its result is given to the callback of the call. -/
theorem one_callback_answered :
    ∃ (trace : List (World Unit Unit × Action Unit)) (w : World Unit Unit),
      Run (Step demoServer Writer.noDoubles) start trace w ∧
        w.session.invoked = [(addTalk 0).told 0] ∧
        (∀ i ∈ w.session.invoked, Told (Books.of trace) w i) ∧
        (w.session.invoked.map fun i => i.2.id).Nodup := by
  obtain ⟨trace, w, run, proper, few, -, invoked⟩ := one_call
  exact ⟨trace, w, run, invoked, callbacks_answered run proper few⟩

end Runs

end LaliRpc.Zrpc.World
