/-
# Zrpc.OnMessage — what a peer's bytes do to the server

`BaseServer<RpcServer>::onMessage`: the message loop around the dispatch of
requests. Two questions about one call of it, each answered exactly.

* Does it return? It catches C strings only, so it does unless something under
  it throws an `Exception` or fails an assertion (`onMessage_returns_iff`).
* Is a request with an id answered, once, under its id? No error response is
  ever built, so only an accepted call is (`answered_iff_accepted`).
-/
import LaliRpc.Zrpc.BaseServer
import LaliRpc.Zrpc.Dispatch

namespace LaliRpc.Zrpc

open LaliRpc.Jackson LaliRpc.Net LaliRpc.Theory

set_option autoImplicit false

/-- The callback `handleMessage` passes to `handleRequest`. -/
def reply : RpcDoneCallback := fun response =>
  if response.isNull then [] else [.sendResponse response]

section OnMessage

variable {κ ν : Type}

def RpcServer.onMessage (server : RpcServer κ ν) (buffer : Buffer) :
    Ended Buffer (Event κ ν) Thrown :=
  BaseServer.onMessage (fun json => server.handleRequest json reply) buffer

/-! ## Which faults a request raises -/

/-- The faults `onMessage` catches. -/
def isCString (t : Thrown) : Prop := ∃ msg, t = .cstr msg

/-- Every element the batch loop reaches is routed: the first is, and if it is
accepted so are those behind it. -/
def RoutedBatch (server : RpcServer κ ν) : List Value → Prop
  | [] => True
  | v :: vs => RoutedRequest server v ∧ (AcceptedRequest server v → RoutedBatch server vs)

/-- The bodies that raise no uncaught fault. -/
def RoutedBody (server : RpcServer κ ν) (body : Bytes) : Prop :=
  ∃ v, parse body = .ok v ∧
    (RoutedRequest server v ∨ ∃ vs, v = .array vs ∧ vs ≠ [] ∧ RoutedBatch server vs)

/-- The input of a server that does not throw out of its message handler: a
complete line at the front repeats no member name, and if it announces a
message that has arrived, the bytes behind it are a routed request. -/
def Contained (server : RpcServer κ ν) (input : Bytes) : Prop :=
  ∀ i, Buffer.searchCRLF input = some i → 0 < i →
    parse (input.take (i + 2)) ≠ .error .assertion ∧
    ∀ n, headerLength (input.take (i + 2)) = .ok (some n) → n < BaseServer.kMaxMessageLen →
      i + 2 + n ≤ input.length → RoutedBody server (input.drop (i + 2))

variable {server : RpcServer κ ν}

theorem not_isCString {msg : String} : ¬ isCString (.exception msg) := by
  rintro ⟨_, h⟩
  cases h

theorem faults_raise_iff {α : Type} {P : Thrown → Prop} {t : Thrown} :
    Faults P (Exec.raise t : Exec (Event κ ν) Thrown α).result ↔ P t :=
  ⟨fun h => h t rfl, fun h => faults_error α h⟩

theorem not_routedRequest_of_noId {members : List (Bytes × Value)}
    (noId : members.lookup (ascii "id") = none) : ¬ RoutedRequest server (.object members) := by
  rintro ⟨_, service, name, same, routed⟩
  obtain rfl := Value.object.inj same
  obtain ⟨v, found, -⟩ := routed.id
  rw [noId] at found
  cases found

/-- A call raises an uncaught fault exactly when it is not routed. -/
theorem handleSingleRequest_faults_iff {members : List (Bytes × Value)}
    (distinct : (members.map Prod.fst).Nodup) (done : RpcDoneCallback) :
    Faults isCString (server.handleSingleRequest (.object members) done).result ↔
      RoutedRequest server (.object members) := by
  by_cases routed : ∃ service name, Routed server members service name
  · have yes : RoutedRequest server (.object members) := by
      obtain ⟨service, name, routed⟩ := routed
      exact ⟨members, service, name, rfl, routed⟩
    refine iff_of_true ?_ yes
    obtain ⟨service, name, routed⟩ := routed
    by_cases accepted : ∃ p, Accepted server members p
    · obtain ⟨p, accepted⟩ := accepted
      rw [handleSingleRequest_accepted distinct accepted]
      exact faults_ok _ _
    · obtain ⟨msg, eq⟩ := handleSingleRequest_refused distinct routed accepted done
      rw [eq, faults_raise_iff]
      exact ⟨msg, rfl⟩
  · refine iff_of_false ?_ ?_
    · obtain ⟨msg, eq⟩ := handleSingleRequest_not_routed distinct routed done
      rw [eq, faults_raise_iff]
      exact not_isCString
    · rintro ⟨_, service, name, same, found⟩
      obtain rfl := Value.object.inj same
      exact routed ⟨service, name, found⟩

theorem element_faults_iff {v : Value} (keyed : v.WellKeyed) :
    Faults isCString (server.handleElement v).result ↔ RoutedRequest server v := by
  by_cases object : ∃ members, v = .object members
  · obtain ⟨members, rfl⟩ := object
    cases found : members.lookup (ascii "id") with
    | some id =>
        rw [handleElement_call found]
        exact handleSingleRequest_faults_iff keyed.distinct _
    | none =>
        rw [handleElement_notify found, faults_raise_iff]
        exact iff_of_false not_isCString (not_routedRequest_of_noId found)
  · rw [handleElement_other object, faults_raise_iff]
    refine iff_of_false not_isCString ?_
    rintro ⟨members, -, -, same, -⟩
    exact object ⟨members, same⟩

/-- The loop over a batch goes on exactly behind accepted elements. -/
theorem batch_faults_iff : ∀ vs : List Value, (∀ v ∈ vs, v.WellKeyed) →
    (Faults isCString (Exec.forEach server.handleElement vs).result ↔ RoutedBatch server vs)
  | [], _ => iff_of_true (faults_ok _ _) trivial
  | v :: vs, keyed => by
      have first : Faults isCString (server.handleElement v).result ↔ RoutedRequest server v :=
        element_faults_iff (keyed v (by simp))
      have rest := batch_faults_iff vs fun w hw => keyed w (by simp [hw])
      by_cases accepted : AcceptedRequest server v
      · obtain ⟨members, p, rfl, accept⟩ := accepted
        have ok := handleElement_accepted (keyed _ (by simp)).distinct accept
        have routed : RoutedRequest server (.object members) := by
          rw [← first, ok]
          exact faults_ok _ _
        rw [Exec.forEach, ok, Exec.bind_ok rfl, rest]
        exact ⟨fun h => ⟨routed, fun _ => h⟩, fun h => h.2 ⟨members, p, rfl, accept⟩⟩
      · obtain ⟨t, throws⟩ : ∃ t, (server.handleElement v).result = .error t := by
          obtain ⟨t, eq | eq⟩ := handleElement_not_accepted (keyed v (by simp)) accepted
          · exact ⟨t, by rw [eq]; rfl⟩
          · exact ⟨t, by rw [eq]⟩
        rw [throws] at first
        rw [Exec.forEach, Exec.bind_error throws]
        exact first.trans ⟨fun h => ⟨h, fun yes => absurd yes accepted⟩, fun h => h.1⟩

theorem dispatch_faults_iff {v : Value} (keyed : v.WellKeyed) (done : RpcDoneCallback) :
    Faults isCString (server.dispatch v done).result ↔
      RoutedRequest server v ∨ ∃ vs, v = .array vs ∧ vs ≠ [] ∧ RoutedBatch server vs := by
  cases v with
  | object members =>
      have single : RoutedRequest server (.object members) ↔ RoutedRequest server (.object members) ∨
          ∃ vs, Value.object members = .array vs ∧ vs ≠ [] ∧ RoutedBatch server vs :=
        ⟨.inl, fun h => h.elim id fun ⟨_, h, _⟩ => by cases h⟩
      rw [← single]
      cases found : members.lookup (ascii "id") with
      | some id =>
          rw [dispatch_call found]
          exact handleSingleRequest_faults_iff keyed.distinct done
      | none =>
          rw [dispatch_notify found, faults_raise_iff]
          exact iff_of_false not_isCString (not_routedRequest_of_noId found)
  | array vs =>
      have batch : (vs ≠ [] ∧ RoutedBatch server vs) ↔ RoutedRequest server (.array vs) ∨
          ∃ ws, Value.array vs = .array ws ∧ ws ≠ [] ∧ RoutedBatch server ws := by
        constructor
        · exact fun h => .inr ⟨vs, rfl, h⟩
        · rintro (⟨_, _, _, h, _⟩ | ⟨ws, h, routed⟩)
          · cases h
          · cases h
            exact routed
      rw [← batch]
      show Faults isCString (server.handleBatchRequests vs done).result ↔ _
      by_cases empty : vs = []
      · subst empty
        exact iff_of_false (faults_raise_iff.not.mpr not_isCString) fun h => h.1 rfl
      · rw [RpcServer.handleBatchRequests, if_neg (List.length_eq_zero_iff.not.mpr empty)]
        show Faults isCString (Exec.forEach server.handleElement vs).result ↔ _
        rw [batch_faults_iff vs keyed.elements]
        exact ⟨fun h => ⟨empty, h⟩, fun h => h.2⟩
  | null | bool _ | int32 _ | int64 _ | double _ | string _ =>
      refine iff_of_false (faults_raise_iff.not.mpr not_isCString) ?_
      rintro (⟨_, _, _, h, _⟩ | ⟨_, h, _⟩) <;> cases h

/-- **A request raises no uncaught fault exactly when dispatch routes it.** -/
theorem handleRequest_faults_iff (body : Bytes) (done : RpcDoneCallback) :
    Faults isCString (server.handleRequest body done).result ↔ RoutedBody server body := by
  cases parsed : parse body with
  | ok v =>
      rw [handleRequest_ok parsed, dispatch_faults_iff (parse_wellKeyed parsed)]
      constructor
      · exact fun routed => ⟨v, parsed, routed⟩
      · rintro ⟨w, ok, routed⟩
        obtain rfl : v = w := Except.ok.inj (parsed.symm.trans ok)
        exact routed
  | error fault =>
      have unrouted : ¬ RoutedBody server body := by
        rintro ⟨v, ok, -⟩
        rw [parsed] at ok
        cases ok
      refine iff_of_false ?_ unrouted
      cases fault with
      | error e =>
          simp only [RpcServer.handleRequest, parsed]
          exact faults_raise_iff.not.mpr not_isCString
      | assertion =>
          simp only [RpcServer.handleRequest, parsed]
          rw [faults_raise_iff]
          rintro ⟨_, h⟩
          cases h

/-! ## One call of `onMessage` -/

/-- `onMessage` returns exactly when the loop ends without an uncaught fault. -/
theorem onMessage_thrown {b : Buffer} {e : Ended Buffer (Event κ ν) Thrown}
    (ran : (BaseServer.handleMessage fun json => server.handleRequest json reply).run b = e) :
    (server.onMessage b).thrown = none ↔ ∀ t, e.thrown = some t → isCString t := by
  simp only [RpcServer.onMessage, BaseServer.onMessage, ran]
  cases thrown : e.thrown with
  | none => simp [thrown]
  | some t =>
      cases t with
      | cstr msg => simp [isCString]
      | exception msg => simp [thrown, not_isCString]
      | assertion => simp [thrown, isCString]

/-- What `Contained` says of a buffer that starts with a line. -/
theorem contained_line {b : Buffer} {offset : Nat} (found : b.findCRLF = some offset) :
    Contained server b.readable ↔ (0 < offset →
      parse (b.readable.take (offset + 2)) ≠ .error .assertion ∧
      ∀ n, headerLength (b.readable.take (offset + 2)) = .ok (some n) →
        n < BaseServer.kMaxMessageLen → offset + 2 + n ≤ b.readable.length →
          RoutedBody server (b.readable.drop (offset + 2))) := by
  constructor
  · exact fun contained => contained offset found
  · intro contained i line
    obtain rfl : offset = i := Option.some.inj (found.symm.trans line)
    exact contained

/-- What it says of the header line, by what the line declares. -/
theorem declares_iff (line : Bytes) (P : Nat → Prop) :
    (parse line ≠ .error .assertion ∧ ∀ n, headerLength line = .ok (some n) → P n) ↔
      match headerLength line with
      | .error _ => False
      | .ok none => True
      | .ok (some n) => P n := by
  cases declared : headerLength line with
  | error t =>
      obtain ⟨bad, -⟩ := headerLength_error_iff.mp declared
      exact iff_of_false (fun h => h.1 bad) id
  | ok length =>
      have good : parse line ≠ .error .assertion := by
        intro bad
        rw [headerLength_error_iff.mpr ⟨bad, rfl⟩] at declared
        cases declared
      cases length with
      | none => exact iff_of_true ⟨good, fun n h => by cases h⟩ trivial
      | some n =>
          constructor
          · intro h
            exact h.2 n rfl
          · intro h
            refine ⟨good, ?_⟩
            rintro k ⟨⟩
            exact h

/-- Handing on a message raises an uncaught fault when the message has arrived and
is not routed. -/
theorem dispatchMessage_faults_iff {b : Buffer} (valid : b.Valid) {headerLen n : Nat}
    (inside : headerLen ≤ b.readable.length) :
    (∀ t, (dispatchMessage (fun json => server.handleRequest json reply) b headerLen n).ended.thrown
        = some t → isCString t) ↔
      (headerLen + n ≤ b.readable.length → RoutedBody server (b.readable.drop headerLen)) := by
  have lengths := Buffer.length_readable valid
  by_cases whole : headerLen + n ≤ b.readable.length
  · have header : (b.readable.take headerLen).length = headerLen := by
      rw [List.length_take, Nat.min_eq_left inside]
    have arrived := dispatchMessage_arrived (fun json => server.handleRequest json reply) valid
      (List.take_append_drop headerLen b.readable).symm
      (show n ≤ (b.readable.drop headerLen).length by simp; omega)
    rw [header] at arrived
    rw [forall_prop_of_true whole, ← handleRequest_faults_iff _ reply, arrived]
    exact forall_congr' fun t => imp_congr_left Exec.thrown_eq_some_iff
  · rw [dispatchMessage_waits (by omega)]
    exact iff_of_true (fun t h => by cases h) fun h => absurd h whole

theorem onlyCString {msg : String} (t : Thrown) (thrown : some (Thrown.cstr msg) = some t) :
    isCString t := by
  obtain rfl := Option.some.inj thrown
  exact ⟨msg, rfl⟩

/-- **`onMessage` returns exactly on contained input.** -/
theorem onMessage_returns_iff (server : RpcServer κ ν) (b : Buffer) (valid : b.Valid) :
    (server.onMessage b).thrown = none ↔ Contained server b.readable := by
  rw [onMessage_thrown ((BaseServer.handlesFrames _).run_eq b)]
  show (∀ t, (BaseServer.handleMessagePass _ b).ended.thrown = some t → isCString t) ↔ _
  rw [BaseServer.handleMessagePass]
  cases found : b.findCRLF with
  | none =>
      refine iff_of_true (fun t h => by cases h) ?_
      intro i line _
      rw [Buffer.findCRLF, line] at found
      cases found
  | some offset =>
      rw [contained_line found]
      by_cases blank : offset = 0
      · subst blank
        exact iff_of_true (fun t h => by cases h) fun h => absurd h (Nat.lt_irrefl 0)
      · dsimp only
        rw [if_neg blank, forall_prop_of_true (Nat.pos_of_ne_zero blank), declares_iff]
        cases declared : headerLength (b.readable.take (offset + 2)) with
        | error t =>
            obtain ⟨-, rfl⟩ := headerLength_error_iff.mp declared
            refine iff_of_false ?_ id
            intro h
            obtain ⟨_, h⟩ := h .assertion rfl
            cases h
        | ok length =>
            cases length with
            | none => exact iff_of_true onlyCString trivial
            | some n =>
                dsimp only
                by_cases long : BaseServer.kMaxMessageLen ≤ n
                · rw [if_pos long]
                  exact iff_of_true onlyCString fun h => absurd h (Nat.not_lt_of_le long)
                · rw [if_neg long, forall_prop_of_true (Nat.lt_of_not_le long)]
                  exact dispatchMessage_faults_iff valid (Buffer.searchCRLF_some found).1

/-- The input buffer of a connection that has received `bytes`. -/
def received (bytes : Bytes) : Buffer := Buffer.fresh.readFd bytes

theorem valid_received (bytes : Bytes) : (received bytes).Valid :=
  Buffer.valid_readFd Buffer.valid_fresh bytes

theorem readable_received (bytes : Bytes) : (received bytes).readable = bytes := by
  rw [received, Buffer.readable_readFd Buffer.valid_fresh, Buffer.readable_fresh, List.nil_append]

/-- The call of `s.add` as text. -/
def addText : Bytes :=
  ascii ("\x7b\"id\":7,\"jsonrpc\":\"2.0\",\"method\":\"s.add\"," ++
    "\"params\":\x7b\"b\":2,\"a\":1\x7d\x7d")

theorem parse_addText : parse (addText ++ crlf) = .ok (.object addCall) := by
  decide +kernel

theorem addText_contained : Contained demoServer (frame addText) := by
  obtain ⟨service, name, routed, -⟩ := addCall_accepted.routed
  have found : Buffer.searchCRLF (frame addText) = some 2 := by decide +kernel
  have line : parse ((frame addText).take 4) ≠ .error .assertion := by decide +kernel
  have body : parse ((frame addText).drop 4) = .ok (.object addCall) := by decide +kernel
  intro i at_i _
  obtain rfl : 2 = i := Option.some.inj (found.symm.trans at_i)
  exact ⟨line, fun n _ _ _ => ⟨_, body, .inl ⟨addCall, service, name, rfl, routed⟩⟩⟩

theorem addText_returns : (demoServer.onMessage (received (frame addText))).thrown = none :=
  (onMessage_returns_iff demoServer (received (frame addText)) (valid_received _)).mpr
    (by rw [readable_received]; exact addText_contained)

/-- The JSON text `1`, framed, leaves `onMessage` by an uncaught `Exception`. -/
theorem number_escapes :
    (demoServer.onMessage (received (frame (ascii "1")))).thrown =
      some (.exception "request should be json object or array") := by
  decide +kernel

/-! ## Is a request answered? -/

/-- The responses handed to `sendResponse` once every handler called has invoked
its callback once, with the result `answer`. -/
def sent (answer : Value) (events : List (Event κ ν)) : List Value :=
  events.flatMap fun
    | .callReturn _ request done =>
        match UserDoneCallback.call ⟨request, done⟩ answer with
        | .ok effects => effects.filterMap fun
            | .sendResponse response => some response
            | .addResponse _ => none
        | .error _ => []
    | _ => []

/-- Whatever the handler answers, one response with the request's id is sent: a
result if a handler was called, and an error otherwise. -/
def AnsweredOnce (server : RpcServer κ ν) (b : Buffer) (id : Value) : Prop :=
  ∀ answer, ∃ response, sent answer (server.onMessage b).events = [.object response] ∧
    response.lookup (ascii "id") = some id ∧
    if (server.onMessage b).events.any Event.isCall then
      response.lookup (ascii "result") = some answer
    else (response.lookup (ascii "error")).isSome

/-- The one response to a call of a handler. -/
theorem sent_call {callback : κ} {members : List (Bytes × Value)} {id : Value}
    (found : members.lookup (ascii "id") = some id) (answer : Value) :
    sent answer [(.callReturn callback (.object members) reply : Event κ ν)] =
      [UserDoneCallback.resultResponse id answer] := by
  have response : UserDoneCallback.response ⟨.object members, reply⟩ answer = .ok _ :=
    UserDoneCallback.response_eq rfl found answer
  simp only [sent, List.flatMap_cons, List.flatMap_nil, UserDoneCallback.call, response]
  rfl

/-- On a framed request `onMessage` performs what `handleRequest` does. -/
theorem onMessage_events (server : RpcServer κ ν) {b : Buffer} (valid : b.Valid)
    (text : Text BaseServer.kMaxMessageLen) (framed : b.readable = frame text.1) :
    (server.onMessage b).events = (server.handleRequest (text.1 ++ crlf) reply).events := by
  have ran := (BaseServer.handlesFrames fun json => server.handleRequest json reply).run_frame
    (by decide) text valid (show b.readable = frame text.1 ++ [] by simpa using framed)
  rw [List.append_nil] at ran
  simp only [RpcServer.onMessage, BaseServer.onMessage, ran]
  split <;> rfl

/-- **A request with an id is answered exactly when dispatch accepts it.** The
text reaches the parser with the CR LF of its frame. -/
theorem answered_iff_accepted (server : RpcServer κ ν) (b : Buffer) (valid : b.Valid)
    (text : Text BaseServer.kMaxMessageLen) (framed : b.readable = frame text.1)
    (members : List (Bytes × Value)) (parsed : parse (text.1 ++ crlf) = .ok (.object members))
    (id : Value) (found : members.lookup (ascii "id") = some id) :
    AnsweredOnce server b id ↔ ∃ p, Accepted server members p := by
  have distinct := (parse_wellKeyed parsed).distinct
  have events : (server.onMessage b).events =
      (server.handleSingleRequest (.object members) reply).events := by
    rw [onMessage_events server valid text framed, handleRequest_ok parsed, dispatch_call found]
  constructor
  · intro answered
    by_contra refused
    obtain ⟨t, throws⟩ := handleSingleRequest_not_accepted distinct refused reply
    obtain ⟨response, one, -⟩ := answered .null
    rw [events, throws] at one
    cases one
  · rintro ⟨p, accepted⟩ answer
    have calls : (server.onMessage b).events =
        [.callReturn p.callback (.object members) reply] := by
      rw [events, handleSingleRequest_accepted distinct accepted]
    rw [calls, sent_call found]
    exact ⟨_, rfl, rfl, rfl⟩

theorem addText_answered : AnsweredOnce demoServer (received (frame addText)) (.int32 7) :=
  (answered_iff_accepted demoServer (received (frame addText)) (valid_received _)
    ⟨addText, by decide +kernel⟩ (readable_received _) addCall parse_addText (.int32 7)
    (by decide)).mpr ⟨addProcedure, addCall_accepted⟩

/-- A call of the method `s.sub`, which is not registered. -/
def subText : Bytes := ascii "\x7b\"id\":7,\"jsonrpc\":\"2.0\",\"method\":\"s.sub\"\x7d"

def subCall : List (Bytes × Value) :=
  [(ascii "id", .int32 7), (ascii "jsonrpc", .string (ascii "2.0")),
    (ascii "method", .string (ascii "s.sub"))]

/-- It is a request with an id, and nothing is sent: `onMessage` returns after
logging `method not found`. -/
theorem subCall_unanswered :
    parse (subText ++ crlf) = .ok (.object subCall) ∧
      subCall.lookup (ascii "id") = some (.int32 7) ∧
      (demoServer.onMessage (received (frame subText))).thrown = none ∧
      ¬ AnsweredOnce demoServer (received (frame subText)) (.int32 7) := by
  refine ⟨by decide +kernel, by decide, by decide +kernel, fun answered => ?_⟩
  have nothing : (demoServer.onMessage (received (frame subText))).events.length = 0 := by
    decide +kernel
  obtain ⟨response, one, -⟩ := answered .null
  rw [List.length_eq_zero_iff.mp nothing] at one
  cases one

end OnMessage

end LaliRpc.Zrpc
