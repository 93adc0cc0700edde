/-
# Net.HttpContext — parsing an HTTP request out of a buffer

`HttpContext::parseRequst` takes whole lines from the front of the buffer: the
request line, then header lines until one without a colon, which is the blank
line behind them. It is called again when more bytes have come in.

The loop is embedded as written (`pass`, `parseRequst`); in the parts `body` and
`ended` it does nothing for ever (`parseRequst_spins`), in the other two it
returns; so a call returns exactly when the request was not complete before
(`parseRequst_returns_iff`). What it does to the readable bytes is a scanner (`lines`,
`parseRequst_eq_scan`): a line that has come in whole stays the first line
whatever follows it. So a request parsed call by call, however its bytes were
cut, comes out as in one call (`parse_incremental`).
-/
import LaliRpc.Net.Buffer
import LaliRpc.Theory.Assoc
import LaliRpc.Theory.Incremental
import LaliRpc.Theory.Loop
import LaliRpc.Theory.Transition

namespace LaliRpc.Net

set_option autoImplicit false

open Theory (Table Pass Run Scanner Scanned Verdict spin)

/-- Microseconds since the epoch. -/
abbrev Timestamp := Int

/-! ## The request -/

namespace HttpRequest

inductive Method where
  | get | post | head | put | delete | invaild
  deriving DecidableEq, Repr

inductive Version where
  | http10 | http11 | unknown
  deriving DecidableEq, Repr

end HttpRequest

structure HttpRequest where
  method : HttpRequest.Method := .invaild
  version : HttpRequest.Version := .unknown
  path : Bytes := []
  query : Bytes := []
  receiveTime : Timestamp := 0
  headers : Table Bytes Bytes := .empty

/-- `isspace` in the C locale. -/
def isspace (c : UInt8) : Bool := c = 32 || (9 ≤ c && c ≤ 13)

/-- The bytes of `[first, last)`. -/
def slice (line : Bytes) (first last : Nat) : Bytes := (line.take last).drop first

namespace HttpRequest

/-- The comparisons of `setMethod`. -/
def methodOf (text : Bytes) : Method :=
  if text = ascii "GET" then .get
  else if text = ascii "POST" then .post
  else if text = ascii "HEAD" then .head
  else if text = ascii "PUT" then .put
  else if text = ascii "DELETE" then .delete
  else .invaild

/-- `setMethod`: the field is assigned in any case; the result says whether it is a method. -/
def setMethod (request : HttpRequest) (text : Bytes) : Bool × HttpRequest :=
  (methodOf text != .invaild, { request with method := methodOf text })

def setpath (request : HttpRequest) (text : Bytes) : HttpRequest := { request with path := text }

def setQuery (request : HttpRequest) (text : Bytes) : HttpRequest := { request with query := text }

def setVersion (request : HttpRequest) (v : Version) : HttpRequest := { request with version := v }

def setReceiveTime (request : HttpRequest) (time : Timestamp) : HttpRequest :=
  { request with receiveTime := time }

/-- The two loops of `addHeader` over the text behind the colon. -/
def trimmed (text : Bytes) : Bytes := ((text.dropWhile isspace).reverse.dropWhile isspace).reverse

/-- `addHeader(start, start + colon, end)`. -/
def addHeader (request : HttpRequest) (line : Bytes) (colon : Nat) : HttpRequest :=
  { request with
    headers := request.headers.assign (line.take colon) (trimmed (line.drop (colon + 1))) }

def getHeader (request : HttpRequest) (headname : Bytes) : Bytes :=
  (request.headers.find headname).getD []

end HttpRequest

/-! ## The parser -/

inductive HttpRequstPart where
  | requestLine | headers | body | ended
  deriving DecidableEq, Repr

structure HttpContext where
  request : HttpRequest := {}
  part : HttpRequstPart := .requestLine

namespace HttpContext

def parseAll (c : HttpContext) : Bool := c.part = .ended

/-- The last comparison of `partOnRequestLine`, by the byte behind `HTTP/1.`. -/
def versionOf (text : Bytes) : Option HttpRequest.Version :=
  if text.length = 8 ∧ text.take 7 = ascii "HTTP/1." then
    if text.getLast? = some 49 then some .http11
    else if text.getLast? = some 48 then some .http10
    else none
  else none

/-- `partOnRequestLine(start, end)` on the line between them. A failure keeps what
was assigned before it. The search for `?` begins at the start of the line; the
method in front of the target has none. -/
def partOnRequestLine (request : HttpRequest) (line : Bytes) : Bool × HttpRequest :=
  let space := line.idxOf 32
  if space = line.length then (false, request)
  else
    let (isMethod, request) := request.setMethod (line.take space)
    if !isMethod then (false, request)
    else
      let begin := space + 1
      let space := begin + (line.drop begin).idxOf 32
      if space = line.length then (false, request)
      else
        let question := (line.take space).idxOf 63
        let request :=
          if question ≠ space then
            (request.setpath (slice line begin question)).setQuery (slice line question space)
          else request.setpath (slice line begin space)
        match versionOf (line.drop (space + 1)) with
        | some v => (true, request.setVersion v)
        | none => (false, request)

/-- What `parseRequst` works on, and its local `right`. -/
structure Parsing where
  right : Bool
  context : HttpContext
  buf : Buffer

/-- `retrieveUntil(crlf + 2)`, whose argument points behind a line in the buffer. -/
def retrieveLine (buf : Buffer) (crlf : Nat) : Buffer := buf.retrieve (crlf + 2)

/-- One pass of the loop in `parseRequst`. -/
def pass (receiveTime : Timestamp) (p : Parsing) : Pass Parsing Empty Empty :=
  match p.context.part with
  | .requestLine =>
      match p.buf.findCRLF with
      | some crlf =>
          let (right, request) := partOnRequestLine p.context.request (p.buf.readable.take crlf)
          if right then
            .next ⟨true, ⟨request.setReceiveTime receiveTime, .headers⟩,
              retrieveLine p.buf crlf⟩ []
          else .stop ⟨false, ⟨request, .requestLine⟩, p.buf⟩
      | none => .stop p
  | .headers =>
      match p.buf.findCRLF with
      | some crlf =>
          let line := p.buf.readable.take crlf
          let colon := line.idxOf 58
          let buf := retrieveLine p.buf crlf
          if colon ≠ line.length then
            .next ⟨p.right, ⟨p.context.request.addHeader line colon, .headers⟩, buf⟩ []
          else .stop ⟨p.right, ⟨p.context.request, .ended⟩, buf⟩
      | none => .stop p
  | .body => .next p []
  | .ended => .next p []

/-- `parseRequst(&buf, receiveTime)`; every pass that is not the last one uses up
bytes. `none`: the call does not return. -/
def parseRequst (receiveTime : Timestamp) (c : HttpContext) (buf : Buffer) : Option Parsing :=
  (spin (pass receiveTime) (buf.readableBytes + 1) ⟨true, c, buf⟩).map (·.state)

/-- The parts in which a call returns. -/
def Reading (c : HttpContext) : Prop := c.part = .requestLine ∨ c.part = .headers

/-- In the other two the loop does nothing, any number of times. -/
theorem parseRequst_spins (receiveTime : Timestamp) {c : HttpContext} (finished : ¬ Reading c)
    (right : Bool) (buf : Buffer) (n : Nat) : spin (pass receiveTime) n ⟨right, c, buf⟩ = none := by
  have idle : pass receiveTime ⟨right, c, buf⟩ = .next ⟨right, c, buf⟩ [] := by
    unfold pass
    cases h : c.part with
    | requestLine => exact absurd (Or.inl h) finished
    | headers => exact absurd (Or.inr h) finished
    | body => rfl
    | ended => rfl
  induction n with
  | zero => rfl
  | succ n ih =>
      rw [spin, idle]
      simp [ih]

/-! ## The parser on bytes -/

/-- What a pass makes of the bytes in the buffer: `done right` is a pass that
breaks with an answer, `wait` one that breaks for want of a line. -/
def lineStep (receiveTime : Timestamp) (c : HttpContext) (p : Bytes) : Verdict HttpContext Bool :=
  match Buffer.searchCRLF p with
  | none => .wait
  | some crlf =>
      let line := p.take crlf
      match c.part with
      | .requestLine =>
          let (right, request) := partOnRequestLine c.request line
          if right then .next ⟨request.setReceiveTime receiveTime, .headers⟩ (crlf + 2)
          else .done false ⟨request, .requestLine⟩ 0
      | .headers =>
          let colon := line.idxOf 58
          if colon ≠ line.length then .next ⟨c.request.addHeader line colon, .headers⟩ (crlf + 2)
          else .done true ⟨c.request, .ended⟩ (crlf + 2)
      | .body => .wait
      | .ended => .wait

section Steps

variable {receiveTime : Timestamp} {c c' : HttpContext} {p : Bytes} {n : Nat} {right : Bool}

/-- A pass that goes on has used a line and read a part of the request. -/
theorem lineStep_next (h : lineStep receiveTime c p = .next c' n) :
    ∃ crlf, Buffer.searchCRLF p = some crlf ∧ n = crlf + 2 ∧ c'.part = .headers := by
  unfold lineStep at h
  cases found : Buffer.searchCRLF p with
  | none => simp [found] at h
  | some crlf =>
      refine ⟨crlf, rfl, ?_⟩
      simp only [found] at h
      split at h
      · split at h
        · cases h
          exact ⟨rfl, rfl⟩
        · cases h
      · split at h
        · cases h
          exact ⟨rfl, rfl⟩
        · cases h
      · cases h
      · cases h

/-- An answer uses nothing or a line; only the answer `true` ends the request. -/
theorem lineStep_done (h : lineStep receiveTime c p = .done right c' n) :
    (right = false ∧ n = 0 ∧ c'.part = .requestLine) ∨
      (right = true ∧ (∃ crlf, Buffer.searchCRLF p = some crlf ∧ n = crlf + 2) ∧
        c'.part = .ended) := by
  unfold lineStep at h
  cases found : Buffer.searchCRLF p with
  | none => simp [found] at h
  | some crlf =>
      simp only [found] at h
      split at h
      · split at h
        · cases h
        · cases h
          exact .inl ⟨rfl, rfl, rfl⟩
      · split at h
        · cases h
        · cases h
          exact .inr ⟨rfl, ⟨crlf, rfl, rfl⟩, rfl⟩
      · cases h
      · cases h

/-- A line that is there is read alike whatever comes behind it. -/
theorem lineStep_append (decided : lineStep receiveTime c p ≠ .wait) (q : Bytes) :
    lineStep receiveTime c (p ++ q) = lineStep receiveTime c p := by
  cases found : Buffer.searchCRLF p with
  | none =>
      apply absurd _ decided
      simp [lineStep, found]
  | some crlf =>
      have inside := (Buffer.searchCRLF_some found).1
      have line : (p ++ q).take crlf = p.take crlf := List.take_append_of_le_length (by omega)
      simp only [lineStep, found, Buffer.searchCRLF_append found q, line]

theorem lineStep_waits (reading : Reading c) :
    lineStep receiveTime c p = .wait ↔ Buffer.searchCRLF p = none := by
  cases found : Buffer.searchCRLF p with
  | none => simp [lineStep, found]
  | some crlf =>
      simp only [lineStep, found, reduceCtorEq, iff_false]
      rcases reading with h | h
      · simp only [h]
        split <;> simp
      · simp only [h]
        split <;> simp

end Steps

def lines (receiveTime : Timestamp) : Scanner HttpContext UInt8 Bool where
  step := lineStep receiveTime
  uses := by
    intro c p c' n h
    obtain ⟨crlf, found, rfl, -⟩ := lineStep_next h
    have inside := (Buffer.searchCRLF_some found).1
    omega
  fits := by
    intro c p right c' n h
    rcases lineStep_done h with ⟨-, rfl, -⟩ | ⟨-, ⟨crlf, found, rfl⟩, -⟩
    · exact Nat.zero_le _
    · exact (Buffer.searchCRLF_some found).1
  stable := fun decided q => lineStep_append decided q

/-! ## The loop is the scanner -/

section Refinement

variable {receiveTime : Timestamp} {c c' : HttpContext} {b : Buffer} {n : Nat} {right : Bool}

theorem pass_wait (reading : Reading c) (h : lineStep receiveTime c b.readable = .wait) :
    pass receiveTime ⟨true, c, b⟩ = .stop ⟨true, c, b⟩ := by
  have noLine : b.findCRLF = none := (lineStep_waits reading).mp h
  unfold pass
  rcases reading with part | part
  · simp [part, noLine]
  · simp [part, noLine]

theorem pass_next (valid : b.Valid) (h : lineStep receiveTime c b.readable = .next c' n) :
    ∃ b', pass receiveTime ⟨true, c, b⟩ = .next ⟨true, c', b'⟩ [] ∧
      b'.Valid ∧ b'.readable = b.readable.drop n := by
  obtain ⟨crlf, found, rfl, -⟩ := lineStep_next h
  have line : b.findCRLF = some crlf := found
  refine ⟨retrieveLine b crlf, ?_, Buffer.valid_retrieve valid _,
    Buffer.readable_retrieve valid _⟩
  cases part : c.part with
  | requestLine =>
      cases parsed : (partOnRequestLine c.request (b.readable.take crlf)).1 with
      | false => simp [lineStep, found, part, parsed] at h
      | true =>
          simp only [lineStep, found, part, parsed, if_true, Verdict.next.injEq] at h
          simp [pass, part, line, parsed, ← h.1]
  | headers =>
      by_cases colon : List.idxOf 58 (b.readable.take crlf) ≠ (b.readable.take crlf).length
      · simp only [lineStep, found, part, if_pos colon, Verdict.next.injEq] at h
        simp only [pass, part, line, if_pos colon, ← h.1]
      · simp only [lineStep, found, part, if_neg colon, reduceCtorEq] at h
  | body => simp [lineStep, found, part] at h
  | ended => simp [lineStep, found, part] at h

theorem pass_done (valid : b.Valid) (h : lineStep receiveTime c b.readable = .done right c' n) :
    ∃ b', pass receiveTime ⟨true, c, b⟩ = .stop ⟨right, c', b'⟩ ∧
      b'.Valid ∧ b'.readable = b.readable.drop n := by
  cases found : Buffer.searchCRLF b.readable with
  | none => simp [lineStep, found] at h
  | some crlf =>
      have line : b.findCRLF = some crlf := found
      cases part : c.part with
      | requestLine =>
          cases parsed : (partOnRequestLine c.request (b.readable.take crlf)).1 with
          | true => simp [lineStep, found, part, parsed] at h
          | false =>
              simp only [lineStep, found, part, parsed, Bool.false_eq_true, if_false,
                Verdict.done.injEq] at h
              obtain ⟨rfl, rfl, rfl⟩ := h
              exact ⟨b, by simp [pass, part, line, parsed], valid, by simp⟩
      | headers =>
          by_cases colon : List.idxOf 58 (b.readable.take crlf) ≠ (b.readable.take crlf).length
          · simp only [lineStep, found, part, if_pos colon, reduceCtorEq] at h
          · simp only [lineStep, found, part, if_neg colon, Verdict.done.injEq] at h
            obtain ⟨rfl, rfl, rfl⟩ := h
            refine ⟨retrieveLine b crlf, ?_, Buffer.valid_retrieve valid _,
              Buffer.readable_retrieve valid _⟩
            simp only [pass, part, line, if_neg colon]
      | body => simp [lineStep, found, part] at h
      | ended => simp [lineStep, found, part] at h

/-- Where a call has got to, as the scanner sees it. -/
structure Shows (p : Parsing) (w : Scanned HttpContext UInt8 Bool) : Prop where
  valid : p.buf.Valid
  context : p.context = w.state
  readable : p.buf.readable = w.rest
  right : p.right = w.result.getD true

/-- The loop ends where the scanner does: every pass that goes on uses bytes, so
the number of readable ones bounds the passes. -/
theorem spin_pass (valid : b.Valid) (reading : Reading c) (enough : b.readable.length < n) :
    ∃ p, spin (pass receiveTime) n ⟨true, c, b⟩ = some ⟨p, [], none⟩ ∧
      Shows p ((lines receiveTime).scan c b.readable) := by
  induction n generalizing b c with
  | zero => omega
  | succ n ih =>
      cases h : lineStep receiveTime c b.readable with
      | wait =>
          have waits : (lines receiveTime).step c b.readable = .wait := h
          refine ⟨⟨true, c, b⟩, by rw [spin, pass_wait reading h], ?_⟩
          rw [Scanner.scan_wait waits]
          exact ⟨valid, rfl, rfl, rfl⟩
      | next c' k =>
          have goesOn : (lines receiveTime).step c b.readable = .next c' k := h
          obtain ⟨pos, le⟩ := (lines receiveTime).uses goesOn
          obtain ⟨b', passed, valid', rest⟩ := pass_next valid h
          obtain ⟨-, -, -, part⟩ := lineStep_next h
          have fewer : b'.readable.length < n := by
            simp only [rest, List.length_drop]
            omega
          obtain ⟨p, spun, shows'⟩ := ih valid' (.inr part) fewer
          refine ⟨p, ?_, ?_⟩
          · simp [spin, passed, spun, Theory.Ended.after]
          · rwa [Scanner.scan_next goesOn, ← rest]
      | done right c' k =>
          have ends : (lines receiveTime).step c b.readable = .done right c' k := h
          obtain ⟨b', passed, valid', rest⟩ := pass_done valid h
          refine ⟨⟨right, c', b'⟩, by rw [spin, passed], ?_⟩
          rw [Scanner.scan_done ends]
          exact ⟨valid', rfl, rest, rfl⟩

/-- A call returns, with what the scanner makes of the readable bytes. -/
theorem parseRequst_eq_scan (valid : b.Valid) (reading : Reading c) :
    ∃ p, parseRequst receiveTime c b = some p ∧
      Shows p ((lines receiveTime).scan c b.readable) := by
  have enough : b.readable.length < b.readableBytes + 1 := by
    rw [Buffer.length_readable valid]
    omega
  obtain ⟨p, spun, shows'⟩ := @spin_pass receiveTime c b _ valid reading enough
  exact ⟨p, by rw [parseRequst, spun, Option.map_some], shows'⟩

/-! ## Call after call -/

/-- A chunk is appended; the parser is called on it unless an earlier call has
answered `false` or has come to the end of the request. Between the calls `right`
is the last one's result, `true` before the first. -/
def parseChunk (receiveTime : Timestamp) (p : Parsing) (chunk : Bytes) : Option Parsing :=
  if p.right && !p.context.parseAll then
    parseRequst receiveTime p.context (p.buf.append chunk)
  else some { p with buf := p.buf.append chunk }

/-- One chunk after another; `none` when a call does not return. -/
def parseChunks (receiveTime : Timestamp) (p : Parsing) : List Bytes → Option Parsing
  | [] => some p
  | chunk :: chunks => (parseChunk receiveTime p chunk).bind (parseChunks receiveTime · chunks)

/-- How a call answers: `false` at the request line, `true` at the end. -/
def Answered (right : Bool) (c : HttpContext) : Prop :=
  (right = false ∧ c.part = .requestLine) ∨ (right = true ∧ c.part = .ended)

theorem meets_lines (reading : Reading c) (p : Bytes) :
    Scanner.Meets Reading Answered ((lines receiveTime).scan c p) := by
  apply Scanner.meets_scan _ _ reading p
  · intro c p c' n _ h
    obtain ⟨-, -, -, part⟩ := lineStep_next h
    exact .inr part
  · intro c p right c' n _ h
    rcases lineStep_done h with ⟨no, -, part⟩ | ⟨yes, -, part⟩
    · exact .inl ⟨no, part⟩
    · exact .inr ⟨yes, part⟩

theorem not_reading_of_ended (part : c.part = .ended) : ¬ Reading c := by
  rintro (h | h)
  · simp [part] at h
  · simp [part] at h

/-- The test before a call is whether the scan is unfinished. -/
theorem calls_iff {p : Parsing} {w : Scanned HttpContext UInt8 Bool} (shows' : Shows p w)
    (meets : Scanner.Meets Reading Answered w) :
    (p.right && !p.context.parseAll) = true ↔ w.result = none := by
  obtain ⟨c, rest, result⟩ := w
  simp only [shows'.right, shows'.context, parseAll]
  cases result with
  | none =>
      have reading : Reading c := meets
      have going : c.part ≠ .ended := fun finished => not_reading_of_ended finished reading
      simp [going]
  | some right =>
      have answered : Answered right c := meets
      rcases answered with ⟨no, -⟩ | ⟨-, finished⟩
      · simp [no]
      · simp [finished]

/-- A chunk is what `resume` makes of it. -/
theorem parseChunk_eq_resume {p : Parsing} {w : Scanned HttpContext UInt8 Bool}
    (shows' : Shows p w) (meets : Scanner.Meets Reading Answered w) (chunk : Bytes) :
    ∃ p', parseChunk receiveTime p chunk = some p' ∧
      Shows p' ((lines receiveTime).resume w chunk) ∧
      Scanner.Meets Reading Answered ((lines receiveTime).resume w chunk) := by
  have valid := Buffer.valid_append shows'.valid chunk
  have more : (p.buf.append chunk).readable = w.rest ++ chunk := by
    rw [Buffer.readable_append shows'.valid, shows'.readable]
  have calls := calls_iff shows' meets
  obtain ⟨c, rest, result⟩ := w
  cases result with
  | none =>
      have reading : Reading c := meets
      obtain ⟨p', called, shows''⟩ := @parseRequst_eq_scan receiveTime c _ valid reading
      refine ⟨p', ?_, ?_, meets_lines reading _⟩
      · rw [parseChunk, if_pos (calls.mpr rfl), shows'.context]
        exact called
      · rw [more] at shows''
        exact shows''
  | some right =>
      refine ⟨{ p with buf := p.buf.append chunk }, ?_, ?_, meets⟩
      · rw [parseChunk, if_neg (by rw [calls]; simp)]
      · exact ⟨valid, shows'.context, more, shows'.right⟩

theorem parseChunks_eq_resume {p : Parsing} {w : Scanned HttpContext UInt8 Bool}
    (shows' : Shows p w) (meets : Scanner.Meets Reading Answered w) (chunks : List Bytes) :
    ∃ p', parseChunks receiveTime p chunks = some p' ∧
      Shows p' (chunks.foldl (lines receiveTime).resume w) := by
  induction chunks generalizing p w with
  | nil => exact ⟨p, rfl, shows'⟩
  | cons chunk chunks ih =>
      obtain ⟨p', parsed, shows'', meets'⟩ :=
        @parseChunk_eq_resume receiveTime p w shows' meets chunk
      obtain ⟨p'', rest, final⟩ := ih shows'' meets'
      exact ⟨p'', by rw [parseChunks, parsed, Option.bind_some, rest], final⟩

end Refinement

/-- **Parsing is incremental**: for any bytes cut in any way, calling the parser on
one context after every chunk, until it has answered, ends as one call on all of
them does: with the same result, part, request and readable bytes. -/
theorem parse_incremental (receiveTime : Timestamp) {b : Buffer} (valid : b.Valid)
    (empty : b.readable = []) (chunks : List Bytes) :
    ∃ cut whole, parseChunks receiveTime ⟨true, {}, b⟩ chunks = some cut ∧
      parseRequst receiveTime {} (b.append chunks.flatten) = some whole ∧
      cut.right = whole.right ∧ cut.context.part = whole.context.part ∧
      cut.context.request = whole.context.request ∧ cut.buf.readable = whole.buf.readable := by
  have reading : Reading {} := .inl rfl
  have start : Shows ⟨true, {}, b⟩ ⟨{}, [], none⟩ := ⟨valid, rfl, empty, rfl⟩
  have waits : (lines receiveTime).Waits ⟨{}, [], none⟩ := fun _ => rfl
  obtain ⟨cut, cutDone, cutShows⟩ :=
    @parseChunks_eq_resume receiveTime _ _ start reading chunks
  obtain ⟨whole, wholeDone, wholeShows⟩ := @parseRequst_eq_scan receiveTime {} _
    (Buffer.valid_append valid chunks.flatten) reading
  rw [Scanner.foldl_resume waits] at cutShows
  rw [Buffer.readable_append valid, empty] at wholeShows
  refine ⟨cut, whole, cutDone, wholeDone, ?_, ?_, ?_, ?_⟩
  · rw [cutShows.right, wholeShows.right]
    rfl
  · rw [cutShows.context, wholeShows.context]
    rfl
  · rw [cutShows.context, wholeShows.context]
    rfl
  · rw [cutShows.readable, wholeShows.readable]
    rfl

/-- A request line cut behind its method. -/
theorem parsed_in_two_calls : ∃ cut whole,
    parseChunks 7 ⟨true, {}, .fresh⟩ [ascii "GET ", ascii "/ HTTP/1.1\r\n"] = some cut ∧
      parseRequst 7 {} (Buffer.fresh.append
        [ascii "GET ", ascii "/ HTTP/1.1\r\n"].flatten) = some whole ∧
      cut.right = whole.right ∧ cut.context.part = whole.context.part ∧
      cut.context.request = whole.context.request ∧ cut.buf.readable = whole.buf.readable :=
  parse_incremental 7 Buffer.valid_fresh Buffer.readable_fresh _

/-! ## When a call returns -/

/-- `reset()`: the request is swapped with a new one. -/
def reset (_ : HttpContext) : HttpContext := {}

/-- The loop of a call breaks after some number of passes, and leaves `p`. -/
def ReturnsWith (receiveTime : Timestamp) (c : HttpContext) (buf : Buffer) (p : Parsing) : Prop :=
  ∃ n, spin (pass receiveTime) n ⟨true, c, buf⟩ = some ⟨p, [], none⟩

inductive ContextCall where
  | parseRequst (receiveTime : Timestamp) (buf : Buffer)
  | reset

/-- A call that returns, and the context it leaves. -/
inductive ContextStep : HttpContext → ContextCall → HttpContext → Prop where
  | parseRequst {c : HttpContext} {receiveTime : Timestamp} {buf : Buffer} {p : Parsing}
      (valid : buf.Valid) (returned : ReturnsWith receiveTime c buf p) :
      ContextStep c (.parseRequst receiveTime buf) p.context
  | reset (c : HttpContext) : ContextStep c .reset c.reset

section Calls

variable {receiveTime : Timestamp} {c c' : HttpContext} {b : Buffer} {p : Parsing}

/-- No pass goes to the part `Body`. -/
theorem part_pass (part : p.context.part ≠ .body) :
    (pass receiveTime p).ended.state.context.part ≠ .body := by
  unfold pass
  cases here : p.context.part with
  | requestLine =>
      simp only
      split
      · split
        · simp [Pass.ended]
        · simp [Pass.ended]
      · simpa [Pass.ended] using part
  | headers =>
      simp only
      split
      · split
        · simp [Pass.ended]
        · simp [Pass.ended]
      · simpa [Pass.ended] using part
  | body => exact absurd here part
  | ended => simpa [Pass.ended] using part

theorem part_contextStep {call : ContextCall} (part : c.part ≠ .body)
    (step : ContextStep c call c') : c'.part ≠ .body := by
  cases step with
  | @parseRequst receiveTime buf p valid returned =>
      obtain ⟨n, done⟩ := returned
      refine Theory.spin_invariant (I := fun p : Parsing => p.context.part ≠ .body) ?_ ?_ done part
      · intro p q es start passed
        have left := @part_pass receiveTime p start
        rwa [passed] at left
      · intro p q start passed
        have left := @part_pass receiveTime p start
        rwa [passed] at left
  | reset => simp [reset]

/-- A context whose request is complete is one that is not reading. -/
theorem reading_iff (part : c.part ≠ .body) : Reading c ↔ c.parseAll = false := by
  cases here : c.part with
  | requestLine => simp [Reading, parseAll, here]
  | headers => simp [Reading, parseAll, here]
  | body => exact absurd here part
  | ended => simp [Reading, parseAll, here]

/-- **A call returns exactly on a context whose request is not complete**, whatever
calls came before and whatever the buffer has. -/
theorem parseRequst_returns_iff {trace : List (HttpContext × ContextCall)}
    (run : Run ContextStep {} trace c) (receiveTime : Timestamp) (valid : b.Valid) :
    (∃ p, ReturnsWith receiveTime c b p) ↔ c.parseAll = false := by
  have part : c.part ≠ .body :=
    run.invariant_last (I := fun c : HttpContext => c.part ≠ .body)
      (fun _ _ _ => part_contextStep) (by simp)
  rw [← reading_iff part]
  constructor
  · rintro ⟨p, n, done⟩
    by_contra finished
    rw [parseRequst_spins receiveTime finished] at done
    cases done
  · intro reading
    obtain ⟨p, done, -⟩ := @spin_pass receiveTime c b _ valid reading (Nat.lt_succ_self _)
    exact ⟨p, _, done⟩

end Calls

/-- A request in one piece. -/
def wholeRequest : Buffer := Buffer.fresh.append (ascii "GET / HTTP/1.1\r\n\r\n")

/-- A call on it returns, and leaves a context whose request is complete. -/
theorem run_wholeRequest : ∃ c, Run ContextStep {} [({}, .parseRequst 7 wholeRequest)] c ∧
    c.part = .ended := by
  have valid : wholeRequest.Valid := Buffer.valid_append Buffer.valid_fresh _
  obtain ⟨p, done, -⟩ := @spin_pass 7 {} wholeRequest 40 valid (.inl rfl) (by decide +kernel)
  have ended : (spin (pass 7) 40 ⟨true, {}, wholeRequest⟩).map (·.state.context.part) =
      some .ended := by decide +kernel
  refine ⟨p.context, .cons (.parseRequst valid ⟨40, done⟩) (.nil _), ?_⟩
  rw [done] at ended
  exact Option.some.inj ended

/-- Behind a complete request and a reset the next call returns. -/
theorem reset_context_returns : ∃ trace c, Run ContextStep {} trace c ∧ c.part = .ended ∧
    ∃ p, ReturnsWith 7 c.reset wholeRequest p := by
  obtain ⟨c, run, ended⟩ := run_wholeRequest
  have again := run.append (.cons (.reset c) (.nil _))
  have valid : wholeRequest.Valid := Buffer.valid_append Buffer.valid_fresh _
  exact ⟨_, c, run, ended, (parseRequst_returns_iff again 7 valid).mpr rfl⟩

/-- The second call on a context never ends. -/
theorem complete_context_spins : ∃ trace c, Run ContextStep {} trace c ∧
    ¬ ∃ p, ReturnsWith 7 c Buffer.fresh p := by
  obtain ⟨c, run, ended⟩ := run_wholeRequest
  refine ⟨_, c, run, ?_⟩
  rintro ⟨p, n, done⟩
  rw [parseRequst_spins 7 (not_reading_of_ended ended)] at done
  cases done

end HttpContext

end LaliRpc.Net
