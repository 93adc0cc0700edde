/-
# Net.HttpServer — requests over a connection

`HttpServer::onMessage` runs after each read of a connection. It parses with a
context of its own and calls `onRequest` at most once. What the parser had read
of a request that is not complete is gone with the context, and what stays in
the buffer behind a complete request waits for the next read.

So a sequence of well-formed requests (`Message`) is served, each as if it had
come alone and with no 400 reply, exactly on the cuts on which every read ends
before the line end of the first unserved request's request line, or at or
behind that request's end, with a read for every request (`served_iff_paced`).
-/
import Mathlib.Data.List.Sort
import LaliRpc.Net.HttpMessage
import LaliRpc.Theory.Pacing

namespace LaliRpc.Net

set_option autoImplicit false

open Theory (Table Scanner Scanned)
open Theory.Framing (stream Receiver feed Paced OnePerRead delivers_iff_paced)

/-! ## The respond -/

inductive HttpRespondStatus where
  | r200Succeed | r404Notfound | r301MovePermanently | r400BadRequest | rUnknown
  deriving DecidableEq, Repr

/-- The values of the enumeration; the last one follows the one before it. -/
def HttpRespondStatus.code : HttpRespondStatus → Nat
  | .r200Succeed => 200
  | .r404Notfound => 404
  | .r301MovePermanently => 301
  | .r400BadRequest => 400
  | .rUnknown => 401

structure HttpRespond where
  headers : Table Bytes Bytes := .empty
  status : HttpRespondStatus := .rUnknown
  statusMessage : Bytes := []
  body : Bytes := []
  closeConnection : Bool

namespace HttpRespond

/-- `snprintf` into the 32 bytes of `buf`, as `append(buf)` reads them. -/
def snprintf (text : Bytes) : Bytes := text.take 31

/-- `headers_` in the order of its keys. -/
def headersInOrder (respond : HttpRespond) : List (Bytes × Bytes) :=
  respond.headers.entries.insertionSort fun a b => a.1 ≤ b.1

/-- What `appendToBuffer` appends, piece by piece. -/
def pieces (respond : HttpRespond) : List Bytes :=
  [snprintf (ascii "HTTP/1.1 " ++ toDecimal respond.status.code ++ ascii " "),
    respond.statusMessage, crlf] ++
  (if respond.closeConnection then [ascii "Connection: close\r\n"]
    else [snprintf (ascii "Content-Length: " ++ toDecimal respond.body.length ++ crlf),
      ascii "Connection: Keep-Alive\r\n"]) ++
  respond.headersInOrder.flatMap (fun head => [head.1, ascii ": ", head.2, crlf]) ++
  [crlf, respond.body]

def appendToBuffer (respond : HttpRespond) (output : Buffer) : Buffer :=
  respond.pieces.foldl Buffer.append output

end HttpRespond

/-! ## The server -/

/-- `default_HttpCallback`. -/
def default_HttpCallback (_request : HttpRequest) (respond : HttpRespond) : HttpRespond :=
  { respond with
    status := .r404Notfound, statusMessage := ascii "NotFound", closeConnection := true }

structure HttpServer where
  httpCallback : HttpRequest → HttpRespond → HttpRespond := default_HttpCallback

namespace HttpServer

/-- What the server calls: its own `onRequest`, and `send` and `shutdown` of the connection. -/
inductive Call where
  | onRequest (request : HttpRequest)
  | send (message : Bytes)
  | shutdown

def badRequest : Bytes := ascii " 400 Bad Request "

variable (server : HttpServer)

/-- The respond of `onRequest` behind the callback. -/
def respond (request : HttpRequest) : HttpRespond :=
  let connection := request.getHeader (ascii "Connection")
  let close := connection = ascii "close" ∨
    (request.version = .http10 ∧ connection ≠ ascii "Keep-Alive")
  server.httpCallback request { closeConnection := close }

def onRequest (request : HttpRequest) : List Call :=
  let respond := server.respond request
  let message := (respond.appendToBuffer .fresh).retrieveAsString.1
  .send message :: if respond.closeConnection then [.shutdown] else []

/-- `onMessage(conn, &data, len)`, the context's `reset` apart: the context ends with
the call. `none` when the parser does not return. -/
def onMessage (now : Timestamp) (data : Buffer) : Option (Buffer × List Call) :=
  (HttpContext.parseRequst now {} data).map fun p =>
    (p.buf,
      (if !p.right then [.send badRequest, .shutdown] else []) ++
      (if p.context.parseAll then .onRequest p.context.request :: server.onRequest p.context.request
        else []))

/-- The input buffer of a connection, and how often `onMessage` has run on it. -/
structure Input where
  buf : Buffer
  runs : Nat

/-- A read of the connection and the `onMessage` behind it; `now n` is what
`Timestamp::now()` gives the run numbered `n`. -/
def handleRead (now : Nat → Timestamp) (i : Input) (got : Bytes) : Option (Input × List Call) :=
  (server.onMessage (now i.runs) (i.buf.readFd got)).map fun r => (⟨r.1, i.runs + 1⟩, r.2)

/-- All calls of the reads, one after another. -/
def receive (now : Nat → Timestamp) (i : Input) : List Bytes → Option (List Call)
  | [] => some []
  | got :: reads =>
      (server.handleRead now i got).bind fun r => (receive now r.1 reads).map (r.2 ++ ·)

/-- A new connection. -/
def opened : Input := ⟨.fresh, 0⟩

/-! ## One read -/

variable {server} {now : Nat → Timestamp} {i : Input} {got : Bytes}

/-- The calls `onMessage` makes when the scanner has got to `w`. -/
def answer (server : HttpServer) (w : Scanned HttpContext UInt8 Bool) : List Call :=
  match w.result with
  | none => []
  | some false => [.send badRequest, .shutdown]
  | some true => .onRequest w.state.request :: server.onRequest w.state.request

theorem onMessage_eq_scan {data : Buffer} (valid : data.Valid) (time : Timestamp) :
    ∃ buf, server.onMessage time data =
        some (buf, answer server ((HttpContext.lines time).scan {} data.readable)) ∧
      buf.Valid ∧ buf.readable = ((HttpContext.lines time).scan {} data.readable).rest := by
  have reading : HttpContext.Reading {} := .inl rfl
  have meets := @HttpContext.meets_lines time {} reading data.readable
  obtain ⟨p, parsed, shows'⟩ := @HttpContext.parseRequst_eq_scan time {} data valid reading
  generalize (HttpContext.lines time).scan {} data.readable = w at meets shows' ⊢
  obtain ⟨c, rest, result⟩ := w
  refine ⟨p.buf, ?_, shows'.valid, shows'.readable⟩
  have context : p.context = c := shows'.context
  have right := shows'.right
  simp only [onMessage, parsed, Option.map_some, context, right]
  cases result with
  | none =>
      have going : c.part ≠ .ended :=
        fun finished => HttpContext.not_reading_of_ended finished meets
      simp [answer, HttpContext.parseAll, going]
  | some value =>
      have answered : HttpContext.Answered value c := meets
      rcases answered with ⟨rfl, part⟩ | ⟨rfl, part⟩
      · simp [answer, HttpContext.parseAll, part]
      · simp [answer, HttpContext.parseAll, part]

theorem handleRead_eq_scan (valid : i.buf.Valid) :
    ∃ i', server.handleRead now i got = some (i', answer server
        ((HttpContext.lines (now i.runs)).scan {} (i.buf.readable ++ got))) ∧
      i'.buf.Valid ∧
      i'.buf.readable = ((HttpContext.lines (now i.runs)).scan {} (i.buf.readable ++ got)).rest := by
  obtain ⟨buf, called, valid', rest⟩ :=
    @onMessage_eq_scan server _ (Buffer.valid_readFd valid got) (now i.runs)
  rw [Buffer.readable_readFd valid] at called rest
  exact ⟨⟨buf, i.runs + 1⟩, by rw [handleRead, called, Option.map_some], valid', rest⟩

/-! ## What counts of the calls -/

/-- What was parsed, the time of receipt apart. -/
def contents (request : HttpRequest) : HttpRequest := { request with receiveTime := 0 }

def Call.requested : Call → Option HttpRequest
  | .onRequest request => some (contents request)
  | .send _ => none
  | .shutdown => none

/-- The requests, and `none` for each 400 reply. -/
def Call.noted : Call → Option (Option HttpRequest)
  | .onRequest request => some (some (contents request))
  | .send message => if message = badRequest then some none else none
  | .shutdown => none

theorem readable_foldl_append {b : Buffer} (valid : b.Valid) (pieces : List Bytes) :
    (pieces.foldl Buffer.append b).readable = b.readable ++ pieces.flatten := by
  induction pieces generalizing b with
  | nil => simp
  | cons piece pieces ih =>
      rw [List.foldl_cons, ih (Buffer.valid_append valid piece), Buffer.readable_append valid,
        List.flatten_cons, List.append_assoc]

/-- A respond starts with its version, the 400 reply with a blank. -/
theorem message_ne_badRequest (respond : HttpRespond) :
    (respond.appendToBuffer .fresh).retrieveAsString.1 ≠ badRequest := by
  have text : (respond.appendToBuffer .fresh).retrieveAsString.1 = respond.pieces.flatten := by
    have := readable_foldl_append Buffer.valid_fresh respond.pieces
    simpa [Buffer.retrieveAsString, HttpRespond.appendToBuffer] using this
  have starts : respond.pieces.flatten.head? = some 72 := by
    simp [HttpRespond.pieces, HttpRespond.snprintf, ascii]
  intro same
  rw [text] at same
  rw [same] at starts
  exact absurd starts (by decide)

theorem noted_onRequest (server : HttpServer) (request : HttpRequest) :
    (server.onRequest request).filterMap Call.noted = [] := by
  have other := message_ne_badRequest (server.respond request)
  unfold onRequest
  cases close : (server.respond request).closeConnection with
  | true => simp [Call.noted, other, close]
  | false => simp [Call.noted, other, close]

/-! ## One request per read -/

/-- The server as a receiver of bytes that delivers requests and 400 replies. -/
def receiver (server : HttpServer) (now : Nat → Timestamp) :
    Receiver Input UInt8 (Option HttpRequest) where
  read i got :=
    match server.handleRead now i got with
    | some r => (r.1, r.2.filterMap Call.noted)
    | none => (i, [])
  pending i := i.buf.readable
  Ok i := i.buf.Valid

theorem read_eq_scan (valid : i.buf.Valid) (got : Bytes) :
    ((receiver server now).read i got).2 = (answer server
        ((HttpContext.lines (now i.runs)).scan {} (i.buf.readable ++ got))).filterMap Call.noted ∧
      ((receiver server now).read i got).1.buf.Valid ∧
      ((receiver server now).read i got).1.buf.readable =
        ((HttpContext.lines (now i.runs)).scan {} (i.buf.readable ++ got)).rest := by
  obtain ⟨i', called, valid', rest⟩ := @handleRead_eq_scan server now i got valid
  simp only [receiver, called]
  exact ⟨trivial, valid', rest⟩

/-- The reads return, and their calls are what the receiver delivers. -/
theorem receive_eq_feed (valid : i.buf.Valid) (reads : List Bytes) :
    ∃ calls, server.receive now i reads = some calls ∧
      calls.filterMap Call.noted = (feed (receiver server now) i reads).1.flatten := by
  induction reads generalizing i with
  | nil => exact ⟨[], rfl, rfl⟩
  | cons got reads ih =>
      obtain ⟨i', called, valid', -⟩ := @handleRead_eq_scan server now i got valid
      obtain ⟨calls, later, noted⟩ := ih valid'
      refine ⟨_ ++ calls, by rw [receive, called, Option.bind_some, later, Option.map_some], ?_⟩
      have read : (receiver server now).read i got = (i', (answer server
          ((HttpContext.lines (now i.runs)).scan {} (i.buf.readable ++ got))).filterMap
            Call.noted) := by
        simp only [receiver, called]
      rw [Theory.Framing.feed_cons, read, List.filterMap_append, noted]

/-- **A request that has been begun ends in a 400 reply**: the next whole line is
taken for a request line, and it is none. -/
theorem begun_answered (reads : List Bytes) (valid : i.buf.Valid) {line rest : Bytes}
    (split : i.buf.readable ++ reads.flatten = line ++ crlf ++ rest) (noCR : 13 ∉ line)
    (rejected : Message.Rejected line) (noLine : Buffer.searchCRLF i.buf.readable = none) :
    none ∈ (feed (receiver server now) i reads).1.flatten := by
  induction reads generalizing i with
  | nil =>
      rw [List.flatten_nil, List.append_nil] at split
      rw [split, Buffer.searchCRLF_line noCR] at noLine
      cases noLine
  | cons got reads ih =>
      rw [List.flatten_cons, ← List.append_assoc] at split
      obtain ⟨delivered, valid', left⟩ := @read_eq_scan server now i valid got
      rw [Theory.Framing.feed_cons]
      by_cases short : (i.buf.readable ++ got).length < line.length + 2
      · have noLine' := searchCRLF_short noCR split short
        rw [Scanner.scan_wait (Message.step_wait (.inl rfl) noLine')] at left
        apply List.mem_append_right
        apply ih valid'
        · rw [left]
          exact split
        · rw [left]
          exact noLine'
      · obtain ⟨p', more, -⟩ := split_behind_line split (by omega)
        have step : (HttpContext.lines (now i.runs)).step {} (i.buf.readable ++ got) =
            .done false ⟨(HttpContext.partOnRequestLine {} line).2, .requestLine⟩ 0 := by
          have found := Buffer.searchCRLF_line noCR p'
          have first : (line ++ crlf ++ p').take line.length = line := by
            rw [List.append_assoc, List.take_left' rfl]
          rw [more]
          simp only [HttpContext.lines, HttpContext.lineStep, found, first, rejected {},
            Bool.false_eq_true, if_false]
        apply List.mem_append_left
        rw [delivered, Scanner.scan_done step]
        simp [answer, Call.noted]

theorem contents_meaning (m : Message) (time : Timestamp) :
    contents (m.meaning time) = m.meaning 0 := by
  have keeps : ∀ (fields : List (Bytes × Bytes)) (request : HttpRequest),
      contents (fields.foldl Message.addField request) =
        fields.foldl Message.addField (contents request) := by
    intro fields
    induction fields with
    | nil => exact fun _ => rfl
    | cons f fields ih => exact fun request => ih (Message.addField request f)
  exact keeps m.fields _

theorem onePerRead (server : HttpServer) (now : Nat → Timestamp) :
    OnePerRead Message.encode Message.head (fun m => some (m.meaning 0)) (receiver server now) where
  head_le := Message.head_le
  idle i got valid none := by
    obtain ⟨delivered, valid', left⟩ := @read_eq_scan server now i valid got
    have nothing : i.buf.readable ++ got = [] := none
    rw [nothing, Scanner.scan_wait (Message.step_wait (.inl rfl) rfl)] at delivered left
    exact ⟨delivered, valid', left⟩
  keeps i got m valid isPrefix short := by
    obtain ⟨q, split⟩ := isPrefix
    have alone := @Message.scan_short m (now i.runs) (i.buf.readable ++ got) q split short
    obtain ⟨delivered, valid', left⟩ := @read_eq_scan server now i valid got
    rw [alone] at delivered left
    exact ⟨delivered, valid', left⟩
  takes i got m rest valid split := by
    have whole : i.buf.readable ++ got = m.encode ++ rest := split
    obtain ⟨delivered, valid', left⟩ := @read_eq_scan server now i valid got
    rw [whole, Message.scan_message] at delivered left
    refine ⟨?_, valid', left⟩
    rw [delivered]
    simp [answer, Call.noted, noted_onRequest, contents_meaning]
  loses i got m tail valid split more long reads rest later := by
    obtain ⟨-, valid', left⟩ := @read_eq_scan server now i valid got
    obtain ⟨c, p, scanned, -, line, after, ahead, noCR, rejected, noLine⟩ :=
      @Message.scan_begun m (now i.runs) (i.buf.readable ++ got) tail split long more
    rw [scanned] at left
    have split' : ((receiver server now).read i got).1.buf.readable ++ reads.flatten =
        line ++ crlf ++ (after ++ rest) := by
      rw [left, later, ← List.append_assoc, ahead, List.append_assoc]
    refine ⟨none, ?_, by simp⟩
    apply begun_answered reads valid' split' noCR rejected
    rw [left]
    exact noLine

/-! ## What survives -/

/-- Every request is handed to `onRequest` once, in order, with what it means, and
no 400 reply is sent. -/
structure Survives (ms : List Message) (calls : List Call) : Prop where
  once : calls.filterMap Call.requested = ms.map (·.meaning 0)
  accepted : .send badRequest ∉ calls

theorem survives_iff (ms : List Message) (calls : List Call) :
    Survives ms calls ↔ calls.filterMap Call.noted = ms.map fun m => some (m.meaning 0) := by
  have requests : calls.filterMap Call.requested = (calls.filterMap Call.noted).filterMap id := by
    rw [List.filterMap_filterMap]
    congr 1
    funext call
    cases call with
    | onRequest request => rfl
    | send message => by_cases h : message = badRequest <;> simp [Call.requested, Call.noted, h]
    | shutdown => rfl
  have refused : .send badRequest ∈ calls ↔ none ∈ calls.filterMap Call.noted := by
    rw [List.mem_filterMap]
    constructor
    · intro sent
      exact ⟨_, sent, by simp [Call.noted]⟩
    · rintro ⟨call, mem, noted⟩
      cases call with
      | onRequest request => simp [Call.noted] at noted
      | send message =>
          have bad : message = badRequest := by
            by_contra other
            simp [Call.noted, other] at noted
          rwa [bad] at mem
      | shutdown => simp [Call.noted] at noted
  have values : ∀ (l : List (Option HttpRequest)) (rs : List HttpRequest),
      l = rs.map some ↔ l.filterMap id = rs ∧ none ∉ l := by
    intro l
    induction l with
    | nil =>
        intro rs
        cases rs <;> simp
    | cons o l ih =>
        intro rs
        cases o with
        | none => cases rs <;> simp
        | some r => cases rs <;> simp [ih, and_assoc]
  have meant : (ms.map fun m => some (m.meaning 0)) = (ms.map (·.meaning 0)).map some := by
    simp
  rw [meant, values, ← requests, ← refused]
  exact ⟨fun h => ⟨h.once, h.accepted⟩, fun h => ⟨h.1, h.2⟩⟩

/-- The calls of some reads, and whether the requests survive them. -/
theorem survives_iff_paced (server : HttpServer) (now : Nat → Timestamp) {ms : List Message}
    {reads : List Bytes} (whole : reads.flatten = stream Message.encode ms) :
    ∃ calls, server.receive now opened reads = some calls ∧
      (Survives ms calls ↔ Paced Message.encode Message.head ms 0 reads) := by
  obtain ⟨calls, received, noted⟩ :=
    @receive_eq_feed server now opened Buffer.valid_fresh reads
  have nothing : (receiver server now).pending opened = [] := Buffer.readable_fresh
  have whole' : (receiver server now).pending opened ++ reads.flatten =
      stream Message.encode ms := by
    rw [nothing]
    exact whole
  have ok : (receiver server now).Ok opened := Buffer.valid_fresh
  have paced := delivers_iff_paced (onePerRead server now) ok whole'
  rw [nothing] at paced
  exact ⟨calls, received, by rw [survives_iff, noted]; exact paced⟩

/-- A request that comes alone in a single read is served with what it means. -/
theorem alone (server : HttpServer) (now : Nat → Timestamp) (m : Message) :
    ∃ calls, server.receive now opened [m.encode] = some calls ∧
      calls.filterMap Call.requested = [m.meaning 0] := by
  have whole : [m.encode].flatten = stream Message.encode [m] := by simp
  obtain ⟨calls, received, survives⟩ := survives_iff_paced server now whole
  have paced : Paced Message.encode Message.head [m] 0 [m.encode] := by
    have := m.head_le
    simp only [Paced, Nat.zero_add]
    rw [if_neg (by omega)]
    exact ⟨Nat.le_refl _, trivial⟩
  exact ⟨calls, received, (survives.mpr paced).once⟩

/-- **Requests survive exactly the paced cuts.** However a sequence of well-formed
requests is cut into reads, each request is handed to `onRequest` once, in order,
parsed as when it comes alone in a single read, and no 400 reply is sent, if and
only if every read ends before the request line of the first unserved request is
complete or at the end of that request or behind it, and there is a read for
every request. -/
theorem served_iff_paced (server : HttpServer) (now : Nat → Timestamp) (ms : List Message)
    (reads : List Bytes) (whole : reads.flatten = stream Message.encode ms) :
    (∀ m ∈ ms, ∃ calls, server.receive now opened [m.encode] = some calls ∧
        calls.filterMap Call.requested = [m.meaning 0]) ∧
      ∃ calls, server.receive now opened reads = some calls ∧
        (Survives ms calls ↔ Paced Message.encode Message.head ms 0 reads) :=
  ⟨fun m _ => alone server now m, survives_iff_paced server now whole⟩

/-- `GET / HTTP/1.1` with no field. -/
def simplest : Message where
  method := .get
  path := ascii "/"
  query := []
  version := .http11
  fields := []
  known := by decide
  pathPlain := by decide
  queryPlain := by decide
  queryMark := .inl rfl
  names := by simp
  values := by simp

/-- Two of them, the second cut inside its request line. -/
theorem served_in_two_reads : ∃ calls,
    ({} : HttpServer).receive (fun _ => 7) opened
        [simplest.encode ++ ascii "GET ", ascii "/ HTTP/1.1\r\n\r\n"] = some calls ∧
      Survives [simplest, simplest] calls := by
  obtain ⟨-, calls, received, survives⟩ := served_iff_paced {} (fun _ => 7)
    [simplest, simplest] [simplest.encode ++ ascii "GET ", ascii "/ HTTP/1.1\r\n\r\n"] (by decide)
  refine ⟨calls, received, survives.mpr ?_⟩
  simp only [Paced]
  decide

/-- One request cut behind its request line is refused; of two in one read the second
is not served. -/
theorem cut_or_pipelined :
    (∃ calls, ({} : HttpServer).receive (fun _ => 7) opened
          [ascii "GET / HTTP/1.1\r\n", ascii "\r\n"] = some calls ∧
        ¬ Survives [simplest] calls) ∧
      ∃ calls, ({} : HttpServer).receive (fun _ => 7) opened
          [simplest.encode ++ simplest.encode] = some calls ∧
        ¬ Survives [simplest, simplest] calls := by
  constructor
  · have whole : [ascii "GET / HTTP/1.1\r\n", ascii "\r\n"].flatten =
        stream Message.encode [simplest] := by decide
    obtain ⟨calls, received, survives⟩ := survives_iff_paced {} (fun _ => 7) whole
    refine ⟨calls, received, fun served => ?_⟩
    have paced := survives.mp served
    simp only [Paced] at paced
    revert paced
    decide
  · have whole : [simplest.encode ++ simplest.encode].flatten =
        stream Message.encode [simplest, simplest] := by decide
    obtain ⟨calls, received, survives⟩ := survives_iff_paced {} (fun _ => 7) whole
    refine ⟨calls, received, fun served => ?_⟩
    have paced := survives.mp served
    simp only [Paced] at paced
    revert paced
    decide

end HttpServer

end LaliRpc.Net
