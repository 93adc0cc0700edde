/-
# Net.HeaderBlock — from the request line to the end of the header block

`SentRequest` is a request as a client writes it: a request line, a list of
headers as lines `name: value`, and the empty line. The parser reads back what
was written (`parseRequst_text`): of the headers under one name it keeps the
last, and what follows the empty line stays in the buffer.

The block ends at the first line without a colon (`scan_fields`, `step_last`),
which is the empty line in a block whose other lines have one. A block with a
line that has none in front of its empty line (`Malformed`) ends there, and what
is left of it stays in the buffer; `endsAtBlank_iff` says that these blocks are
the ones on which the parser goes wrong.
-/
import LaliRpc.Net.HttpMessage

namespace LaliRpc.Net

set_option autoImplicit false

open Theory (Scanner Scanned Table Verdict)
open HttpContext

/-! ## The first line -/

/-- The text of a line: no CR LF is in it. -/
def IsLine (line : Bytes) : Prop := Buffer.searchCRLF line = none

instance : DecidablePred IsLine := fun line =>
  inferInstanceAs (Decidable (Buffer.searchCRLF line = none))

theorem take_line (line rest : Bytes) : (line ++ crlf ++ rest).take line.length = line := by
  rw [List.append_assoc, List.take_left' rfl]

theorem step_firstLine (l : RequestLine) (whole : IsLine l.text) (time : Timestamp) (rest : Bytes) :
    (lines time).step {} (l.text ++ crlf ++ rest) =
      .next ⟨(l.told {}).setReceiveTime time, .headers⟩ (l.text.length + 2) :=
  l.step_text (Buffer.searchCRLF_end whole rest) (take_line l.text rest) time

/-- `GET /a?b HTTP/1.1` -/
def plainLine : RequestLine where
  method := .get
  target := ascii "/a?b"
  version := .http11
  isMethod := by decide
  isVersion := by decide
  plain := by decide

/-- A fresh buffer into which a text has come. -/
theorem received (text : Bytes) : (Buffer.fresh.append text).Valid ∧
    (Buffer.fresh.append text).readable = text := by
  refine ⟨Buffer.valid_append Buffer.valid_fresh text, ?_⟩
  rw [Buffer.readable_append Buffer.valid_fresh, Buffer.readable_fresh, List.nil_append]

/-! ## A request with its headers -/

/-- A request line and headers. A name has no colon, a value neither begins nor ends
with white space, and no part of a line has a CR or LF. -/
structure SentRequest where
  line : RequestLine
  headers : List (Bytes × Bytes)
  target : 13 ∉ line.target ∧ 10 ∉ line.target
  names : ∀ h ∈ headers, 58 ∉ h.1 ∧ 13 ∉ h.1 ∧ 10 ∉ h.1
  values : ∀ h ∈ headers, 13 ∉ h.2 ∧ 10 ∉ h.2
  edges : ∀ h ∈ headers, (∀ c ∈ h.2.head?, ¬ isspace c) ∧ ∀ c ∈ h.2.getLast?, ¬ isspace c

namespace SentRequest

/-- `name: value` -/
def header (h : Bytes × Bytes) : Bytes := h.1 ++ ascii ": " ++ h.2

def text (r : SentRequest) : Bytes :=
  r.line.text ++ crlf ++ r.headers.flatMap (header · ++ crlf) ++ crlf

/-- A header as a field: behind the colon there is a blank in front of the value. -/
def spaced (h : Bytes × Bytes) : Bytes × Bytes := (h.1, 32 :: h.2)

theorem header_eq (h : Bytes × Bytes) : header h = Message.field (spaced h) := by
  have colon : ascii ": " = [58, 32] := by decide
  simp [header, Message.field, spaced, colon]

theorem block_eq (headers : List (Bytes × Bytes)) :
    headers.flatMap (header · ++ crlf) ++ crlf = Message.block (headers.map spaced) := by
  induction headers with
  | nil => rfl
  | cons h headers ih =>
      rw [List.flatMap_cons, List.map_cons, Message.block, ← header_eq, ← ih]
      simp only [List.append_assoc]

theorem dropWhile_head {value : Bytes} (starts : ∀ c ∈ value.head?, ¬ isspace c) :
    value.dropWhile isspace = value := by
  cases value with
  | nil => rfl
  | cons c value =>
      have black : ¬ isspace c := starts c rfl
      rw [List.dropWhile_cons_of_neg black]

/-- The blank behind the colon goes, and nothing else. -/
theorem trimmed_spaced {value : Bytes} (starts : ∀ c ∈ value.head?, ¬ isspace c)
    (ends : ∀ c ∈ value.getLast?, ¬ isspace c) :
    HttpRequest.trimmed (32 :: value) = value := by
  have blank : isspace 32 = true := by decide
  have backwards : value.reverse.dropWhile isspace = value.reverse := by
    apply dropWhile_head
    rwa [List.head?_reverse]
  rw [HttpRequest.trimmed, List.dropWhile_cons_of_pos blank, dropWhile_head starts, backwards,
    List.reverse_reverse]

/-- Fields one after another change the headers only. -/
theorem foldl_addField (fields : List (Bytes × Bytes)) (request : HttpRequest) :
    fields.foldl Message.addField request =
      { request with
        headers := request.headers.assignAll
          (fields.map fun f => (f.1, HttpRequest.trimmed f.2)) } := by
  induction fields generalizing request with
  | nil => rfl
  | cons f fields ih => exact ih (Message.addField request f)

theorem assigned_eq (r : SentRequest) :
    (r.headers.map spaced).map (fun f => (f.1, HttpRequest.trimmed f.2)) = r.headers := by
  have same : ∀ h ∈ r.headers, (h.1, HttpRequest.trimmed (32 :: h.2)) = h := by
    intro h mem
    obtain ⟨starts, ends⟩ := r.edges h mem
    rw [trimmed_spaced starts ends]
  rw [List.map_map]
  exact (List.map_congr_left same).trans (List.map_id _)

theorem line_plain (r : SentRequest) : 13 ∉ r.line.text := by
  simp [RequestLine.text, method_plain, r.target, Message.version_plain]

/-- What is parsed is the request line and the headers, the last of each name. -/
theorem scan_text (r : SentRequest) (time : Timestamp) (rest : Bytes) :
    (lines time).scan {} (r.text ++ rest) =
      ⟨⟨{ (r.line.told {}).setReceiveTime time with
          headers := Table.empty.assignAll r.headers }, .ended⟩, rest, some true⟩ := by
  have shape : r.text ++ rest =
      r.line.text ++ crlf ++ (Message.block (r.headers.map spaced) ++ rest) := by
    rw [← block_eq]
    simp only [text, List.append_assoc]
  have whole : IsLine r.line.text :=
    Buffer.searchCRLF_none fun mem => r.line_plain (List.dropLast_subset _ mem)
  have names : ∀ f ∈ r.headers.map spaced, 58 ∉ f.1 ∧ 13 ∉ f.1 := by
    simp only [List.forall_mem_map]
    exact fun h mem => ⟨(r.names h mem).1, (r.names h mem).2.1⟩
  have values : ∀ f ∈ r.headers.map spaced, 13 ∉ f.2 := by
    simp only [List.forall_mem_map]
    intro h mem
    simp [spaced, (r.values h mem).1]
  rw [shape, Scanner.scan_next (step_firstLine r.line whole time _), Message.drop_line,
    Message.scan_block names values, foldl_addField, r.assigned_eq]
  rfl

/-- **A request is read back**: in one call on a fresh context the method, the version,
the path, the query and the headers are those written, and what follows stays. -/
theorem parseRequst_text (r : SentRequest) (time : Timestamp) (trailing : Bytes) {b : Buffer}
    (valid : b.Valid) (holds : b.readable = r.text ++ trailing) :
    ∃ p, parseRequst time {} b = some p ∧ p.right = true ∧ p.context.parseAll = true ∧
      p.context.request.method = r.line.method ∧ p.context.request.version = r.line.version ∧
      p.context.request.path = r.line.path ∧ p.context.request.query = r.line.query ∧
      (∀ name, p.context.request.headers.find name = r.headers.reverse.lookup name) ∧
      p.buf.readable = trailing := by
  obtain ⟨p, parsed, shows⟩ := @parseRequst_eq_scan time {} b valid (.inl rfl)
  rw [holds, r.scan_text] at shows
  have context := shows.context
  refine ⟨p, parsed, shows.right, ?_⟩
  rw [context]
  refine ⟨rfl, rfl, rfl, rfl, r.line.told_query, fun name => ?_, shows.readable⟩
  rw [Table.find_assignAll, Table.find_empty, Option.or_none]

/-- `GET /a?b HTTP/1.1` with a header given twice, and a byte behind the request. -/
theorem read_back : ∃ p,
    parseRequst 7 {} (Buffer.fresh.append
        (ascii "GET /a?b HTTP/1.1\r\nA: x:y\r\nA: z\r\n\r\n.")) = some p ∧
      p.right = true ∧ p.context.parseAll = true ∧ p.context.request.method = .get ∧
      p.context.request.version = .http11 ∧ p.context.request.path = ascii "/a" ∧
      p.context.request.query = ascii "?b" ∧
      (∀ name, p.context.request.headers.find name =
        [(ascii "A", ascii "z"), (ascii "A", ascii "x:y")].lookup name) ∧
      p.buf.readable = ascii "." := by
  obtain ⟨valid, readable⟩ := received (ascii "GET /a?b HTTP/1.1\r\nA: x:y\r\nA: z\r\n\r\n.")
  exact parseRequst_text
    { line := plainLine
      headers := [(ascii "A", ascii "x:y"), (ascii "A", ascii "z")]
      target := by decide
      names := by decide
      values := by decide
      edges := by
        intro h mem
        rcases List.mem_pair.mp mem with rfl | rfl
        · exact ⟨fun c first => by obtain rfl := Option.some.inj first; decide,
            fun c last => by obtain rfl := Option.some.inj last; decide⟩
        · exact ⟨fun c first => by obtain rfl := Option.some.inj first; decide,
            fun c last => by obtain rfl := Option.some.inj last; decide⟩ }
    7 (ascii ".") valid (by rw [readable]; decide)

end SentRequest

/-! ## Where the block ends -/

/-- Lines, each with its CR LF. -/
def linesText (ls : List Bytes) : Bytes := ls.flatMap (· ++ crlf)

theorem linesText_cons (line : Bytes) (ls : List Bytes) :
    linesText (line :: ls) = line ++ crlf ++ linesText ls := List.flatMap_cons

/-- In front of the first empty line there is one without a colon. -/
def Malformed (block : Bytes) : Prop :=
  ∃ fields line rest, block = linesText fields ++ (line ++ crlf ++ rest) ∧
    (∀ f ∈ fields, IsLine f ∧ f ≠ []) ∧ IsLine line ∧ line ≠ [] ∧ 58 ∉ line

section Block

variable {time : Timestamp} {request : HttpRequest} {line rest : Bytes}

/-- A line with a colon is a header. -/
theorem step_colon (whole : IsLine line) (colon : 58 ∈ line) :
    (lines time).step ⟨request, .headers⟩ (line ++ crlf ++ rest) =
      .next ⟨request.addHeader line (line.idxOf 58), .headers⟩ (line.length + 2) := by
  have inside : line.idxOf 58 ≠ line.length := Nat.ne_of_lt (List.idxOf_lt_length_iff.mpr colon)
  simp only [lines, lineStep, Buffer.searchCRLF_end whole, take_line, if_pos inside]

/-- A line without one is the end of the request, empty or not. -/
theorem step_last (whole : IsLine line) (none : 58 ∉ line) :
    (lines time).step ⟨request, .headers⟩ (line ++ crlf ++ rest) =
      .done true ⟨request, .ended⟩ (line.length + 2) := by
  simp only [lines, lineStep, Buffer.searchCRLF_end whole, take_line, List.idxOf_eq_length none,
    ne_eq, not_true_eq_false, if_false]

/-- Lines with a colon are read one after another. -/
theorem scan_fields {fields : List Bytes} (headers : ∀ f ∈ fields, IsLine f ∧ 58 ∈ f)
    (request : HttpRequest) (rest : Bytes) :
    ∃ request', (lines time).scan ⟨request, .headers⟩ (linesText fields ++ rest) =
      (lines time).scan ⟨request', .headers⟩ rest := by
  induction fields generalizing request with
  | nil => exact ⟨request, rfl⟩
  | cons f fields ih =>
      obtain ⟨⟨whole, colon⟩, headers⟩ := List.forall_mem_cons.mp headers
      have step := @step_colon time request f (linesText fields ++ rest) whole colon
      obtain ⟨request', later⟩ := ih headers (request.addHeader f (f.idxOf 58))
      refine ⟨request', ?_⟩
      rw [linesText_cons, List.append_assoc, Scanner.scan_next step, Message.drop_line, later]

/-- Header lines, and behind them either no whole line or one without a colon. -/
theorem block_cases (block : Bytes) :
    ∃ fields left, (∀ f ∈ fields, IsLine f ∧ 58 ∈ f) ∧ block = linesText fields ++ left ∧
      (IsLine left ∨ ∃ line rest, left = line ++ crlf ++ rest ∧ IsLine line ∧ 58 ∉ line) := by
  induction size : block.length using Nat.strong_induction_on generalizing block with
  | _ n ih =>
      cases found : Buffer.searchCRLF block with
      | none => exact ⟨[], block, by simp, rfl, .inl found⟩
      | some i =>
          obtain ⟨inside, split⟩ := Buffer.searchCRLF_some found
          have whole : IsLine (block.take i) := Buffer.searchCRLF_take found
          by_cases colon : 58 ∈ block.take i
          · have fewer : (block.drop (i + 2)).length < n := by
              rw [List.length_drop]
              omega
            obtain ⟨fields, left, headers, shape, last⟩ := ih _ fewer (block.drop (i + 2)) rfl
            refine ⟨block.take i :: fields, left, ?_, ?_, last⟩
            · exact List.forall_mem_cons.mpr ⟨⟨whole, colon⟩, headers⟩
            · rw [linesText_cons, List.append_assoc, ← shape]
              exact split
          · exact ⟨[], block, by simp, rfl, .inr ⟨_, _, split, whole, colon⟩⟩

end Block

/-- What the end of a header block should be: the request ends at the first empty line
only, and a line without a colon in front of it is refused. -/
structure EndsAtBlank (block : Bytes) (p : Parsing) : Prop where
  ended : p.context.parseAll = true → ∃ fields, (∀ f ∈ fields, IsLine f ∧ f ≠ []) ∧
    block = linesText fields ++ (crlf ++ p.buf.readable)
  refused : Malformed block → p.right = false

/-- Behind a request line the parser answers `true`, and the block ends at its first
line without a colon, if there is one. -/
theorem parseRequst_block (l : RequestLine) (whole : IsLine l.text) (time : Timestamp)
    (block : Bytes) {b : Buffer} (valid : b.Valid) (holds : b.readable = l.text ++ crlf ++ block) :
    ∃ p fields left, parseRequst time {} b = some p ∧ p.right = true ∧
      (∀ f ∈ fields, IsLine f ∧ 58 ∈ f) ∧ block = linesText fields ++ left ∧
      (p.context.part = .headers ∧ IsLine left ∨
        ∃ line, p.context.part = .ended ∧ left = line ++ crlf ++ p.buf.readable ∧
          IsLine line ∧ 58 ∉ line) := by
  obtain ⟨p, parsed, shows⟩ := @parseRequst_eq_scan time {} b valid (.inl rfl)
  obtain ⟨fields, left, headers, rfl, last⟩ := block_cases block
  obtain ⟨request, scanned⟩ := @scan_fields time fields headers ((l.told {}).setReceiveTime time) left
  rw [holds, Scanner.scan_next (step_firstLine l whole time _), Message.drop_line, scanned] at shows
  rcases last with wait | ⟨line, rest, rfl, isLine, none⟩
  · rw [Scanner.scan_wait (Message.step_wait (.inr rfl) wait)] at shows
    exact ⟨p, fields, left, parsed, shows.right, headers, rfl,
      .inl ⟨congrArg HttpContext.part shows.context, wait⟩⟩
  · rw [Scanner.scan_done (step_last isLine none), Message.drop_line] at shows
    exact ⟨p, fields, _, parsed, shows.right, headers, rfl,
      .inr ⟨line, congrArg HttpContext.part shows.context, by rw [shows.readable], isLine, none⟩⟩

/-- **The blocks that end at their empty line** are those without a malformed line in
front of it; the parser returns on every one. -/
theorem endsAtBlank_iff (l : RequestLine) (whole : IsLine l.text) (time : Timestamp)
    (block : Bytes) {b : Buffer} (valid : b.Valid) (holds : b.readable = l.text ++ crlf ++ block) :
    ∃ p, parseRequst time {} b = some p ∧ (EndsAtBlank block p ↔ ¬ Malformed block) := by
  obtain ⟨p, fields, left, parsed, right, headers, rfl, last⟩ :=
    parseRequst_block l whole time block valid holds
  have black : ∀ f ∈ fields, IsLine f ∧ f ≠ [] := fun f mem =>
    ⟨(headers f mem).1, List.ne_nil_of_mem (headers f mem).2⟩
  refine ⟨p, parsed, fun ends bad => ?_, fun good => ⟨fun finished => ?_, fun bad => absurd bad good⟩⟩
  · have refused := ends.refused bad
    rw [right] at refused
    cases refused
  · rcases last with ⟨reading, -⟩ | ⟨line, -, rfl, isLine, none⟩
    · simp [parseAll, reading] at finished
    · have empty : line = [] := by
        by_contra filled
        exact good ⟨fields, line, _, rfl, black, isLine, filled, none⟩
      subst empty
      exact ⟨fields, black, rfl⟩

/-- A block of one header and an empty line ends there. -/
theorem one_header_ends : ∃ p,
    parseRequst 7 {} (Buffer.fresh.append (ascii "GET /a?b HTTP/1.1\r\nHost: x\r\n\r\n")) = some p ∧
      (EndsAtBlank (ascii "Host: x\r\n\r\n") p ↔ ¬ Malformed (ascii "Host: x\r\n\r\n")) := by
  obtain ⟨valid, readable⟩ := received (ascii "GET /a?b HTTP/1.1\r\nHost: x\r\n\r\n")
  exact endsAtBlank_iff plainLine (by decide) 7 _ valid (by rw [readable]; decide)

/-- A header line without a colon ends the request; the lines behind it stay in the
buffer and are read as the next one. -/
theorem rest_left_behind : ∃ p,
    parseRequst 7 {} (Buffer.fresh.append
        (ascii "GET /a?b HTTP/1.1\r\nfoo\r\nGET /c HTTP/1.1\r\n\r\n")) = some p ∧
      p.right = true ∧ p.context.parseAll = true ∧
      p.buf.readable = ascii "GET /c HTTP/1.1\r\n\r\n" ∧
      ¬ EndsAtBlank (ascii "foo\r\nGET /c HTTP/1.1\r\n\r\n") p := by
  obtain ⟨valid, readable⟩ :=
    received (ascii "GET /a?b HTTP/1.1\r\nfoo\r\nGET /c HTTP/1.1\r\n\r\n")
  have foo : IsLine (ascii "foo") ∧ 58 ∉ ascii "foo" := by decide
  have shape : ascii "GET /a?b HTTP/1.1\r\nfoo\r\nGET /c HTTP/1.1\r\n\r\n" =
      plainLine.text ++ crlf ++ (ascii "foo" ++ crlf ++ ascii "GET /c HTTP/1.1\r\n\r\n") := by decide
  have block : ascii "foo\r\nGET /c HTTP/1.1\r\n\r\n" =
      linesText [] ++ (ascii "foo" ++ crlf ++ ascii "GET /c HTTP/1.1\r\n\r\n") := by decide
  obtain ⟨p, parsed, shows⟩ := @parseRequst_eq_scan 7 {} _ valid (.inl rfl)
  have whole : IsLine plainLine.text := by decide
  rw [readable, shape, Scanner.scan_next (step_firstLine _ whole 7 _), Message.drop_line,
    Scanner.scan_done (step_last foo.1 foo.2), Message.drop_line] at shows
  refine ⟨p, parsed, shows.right, by rw [shows.context]; rfl, shows.readable, fun ends => ?_⟩
  have bad : Malformed (ascii "foo\r\nGET /c HTTP/1.1\r\n\r\n") :=
    ⟨[], _, _, block, by simp, foo.1, by decide, foo.2⟩
  have refused := ends.refused bad
  rw [shows.right] at refused
  cases refused

end LaliRpc.Net
