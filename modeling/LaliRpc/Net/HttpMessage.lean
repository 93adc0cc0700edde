/-
# Net.HttpMessage — well-formed requests without a body

`Message` is a request as a client means it, with the conditions that make its
bytes (`encode`) a well-formed one: the target has no blank, the path no `?`, a
field name neither a blank nor a colon, and no line a CR. The parser makes of
them what was meant (`scan_message`).

Two lemmas say what it makes of a part of one. Before the request line is
complete it uses nothing (`scan_short`). After that it is somewhere in front of a
line that a new parser, which expects a request line there, rejects (`scan_begun`).
-/
import LaliRpc.Net.RequestLine

namespace LaliRpc.Net

set_option autoImplicit false

open Theory (Scanner Scanned Verdict)
open HttpContext

/-! ## Lines -/

section Lines

variable {c : UInt8} {line p q rest : Bytes}

/-- No line is found in less than the whole first line. -/
theorem searchCRLF_short (noCR : 13 ∉ line) (split : p ++ q = line ++ crlf ++ rest)
    (short : p.length < line.length + 2) : Buffer.searchCRLF p = none := by
  cases found : Buffer.searchCRLF p with
  | none => rfl
  | some i =>
      have whole := Buffer.searchCRLF_append found q
      rw [split, Buffer.searchCRLF_line noCR] at whole
      obtain rfl : line.length = i := Option.some.inj whole
      have inside := (Buffer.searchCRLF_some found).1
      omega

/-- What is there behind the whole first line. -/
theorem split_behind_line (split : p ++ q = line ++ crlf ++ rest)
    (long : line.length + 2 ≤ p.length) : ∃ p', p = line ++ crlf ++ p' ∧ p' ++ q = rest := by
  have isPrefix : line ++ crlf <+: p := by
    apply List.prefix_of_prefix_length_le ⟨rest, rfl⟩ ⟨q, split⟩
    simpa [crlf] using long
  obtain ⟨p', rfl⟩ := isPrefix
  rw [List.append_assoc _ p'] at split
  exact ⟨p', rfl, List.append_cancel_left split⟩

end Lines

/-! ## Messages -/

/-- A request without a body: its target is the path and a query that is empty or
starts with `?`; a field is a name and the text behind the colon. -/
structure Message where
  method : HttpRequest.Method
  path : Bytes
  query : Bytes
  version : HttpRequest.Version
  fields : List (Bytes × Bytes)
  known : method ≠ .invaild ∧ version ≠ .unknown
  pathPlain : 32 ∉ path ∧ 63 ∉ path ∧ 13 ∉ path
  queryPlain : 32 ∉ query ∧ 13 ∉ query
  queryMark : query = [] ∨ ∃ text, query = 63 :: text
  names : ∀ f ∈ fields, 58 ∉ f.1 ∧ 32 ∉ f.1 ∧ 13 ∉ f.1
  values : ∀ f ∈ fields, 13 ∉ f.2

namespace Message

def target (m : Message) : Bytes := m.path ++ m.query

def requestLine (m : Message) : Bytes := m.method.text ++ 32 :: (m.target ++ 32 :: m.version.text)

def field (f : Bytes × Bytes) : Bytes := f.1 ++ 58 :: f.2

/-- The field lines and the blank line behind them. -/
def block : List (Bytes × Bytes) → Bytes
  | [] => crlf
  | f :: fields => field f ++ crlf ++ block fields

def encode (m : Message) : Bytes := m.requestLine ++ crlf ++ block m.fields

/-- The bytes up to the end of the request line. -/
def head (m : Message) : Nat := m.requestLine.length + 2

def addField (request : HttpRequest) (f : Bytes × Bytes) : HttpRequest :=
  { request with headers := request.headers.assign f.1 (HttpRequest.trimmed f.2) }

/-- What the request line alone says of a request received at `time`. -/
def opening (m : Message) (time : Timestamp) : HttpRequest where
  method := m.method
  version := m.version
  path := m.path
  query := m.query
  receiveTime := time

/-- The request meant, received at `time`. -/
def meaning (m : Message) (time : Timestamp) : HttpRequest :=
  m.fields.foldl addField (m.opening time)

variable (m : Message)

theorem head_le : m.head ≤ m.encode.length := by
  simp only [head, encode, crlf, List.length_append, List.length_cons, List.length_nil]
  omega

theorem version_plain (version : HttpRequest.Version) : 13 ∉ version.text := by
  cases version <;> decide

theorem target_plain : 32 ∉ m.target ∧ 13 ∉ m.target := by
  simp [target, m.pathPlain, m.queryPlain]

theorem requestLine_plain : 13 ∉ m.requestLine := by
  simp [requestLine, method_plain, target_plain, version_plain]

theorem field_plain {f : Bytes × Bytes} (name : 13 ∉ f.1) (value : 13 ∉ f.2) : 13 ∉ field f := by
  simp [field, name, value]

/-! ## What the parser makes of its lines -/

/-- The request line of a message. -/
def line : RequestLine where
  method := m.method
  target := m.target
  version := m.version
  isMethod := m.known.1
  isVersion := m.known.2
  plain := m.target_plain.1

/-- The line says what is meant. -/
theorem told_line : m.line.told {} =
    { method := m.method, version := m.version, path := m.path, query := m.query } := by
  have parts : m.line.path = m.path ∧ (if 63 ∈ m.target then m.line.query else []) = m.query := by
    simp only [RequestLine.path, RequestLine.query, line]
    rcases m.queryMark with none | ⟨text, mark⟩
    · have shape : m.target = m.path := by rw [target, none, List.append_nil]
      rw [shape, none, if_neg m.pathPlain.2.1]
      exact ⟨takeWhile_unmarked m.pathPlain.2.1, rfl⟩
    · have shape : m.target = m.path ++ 63 :: text := by rw [target, mark]
      rw [shape, mark, if_pos (by simp)]
      exact takeWhile_mark m.pathPlain.2.1 text
  have said : m.line.told {} =
      { method := m.method, version := m.version, path := m.line.path,
        query := if 63 ∈ m.target then m.line.query else [] } := rfl
  rw [said, parts.1, parts.2]

/-- No method has a colon in it. -/
theorem methodOf_of_mem {text : Bytes} (colon : 58 ∈ text) :
    HttpRequest.methodOf text = .invaild := by
  have no : ∀ method : Bytes, 58 ∉ method → ¬ text = method := by
    rintro method free rfl
    exact free colon
  unfold HttpRequest.methodOf
  rw [if_neg (no _ (by decide)), if_neg (no _ (by decide)), if_neg (no _ (by decide)),
    if_neg (no _ (by decide)), if_neg (no _ (by decide))]

/-- A line that is no request line, whatever the request parsed into. -/
def Rejected (line : Bytes) : Prop := ∀ request, (partOnRequestLine request line).1 = false

theorem rejected_blank : Rejected [] := fun _ => rfl

/-- The first blank of a field line, if there is one, is behind its colon. -/
theorem rejected_field {f : Bytes × Bytes} (name : 32 ∉ f.1) : Rejected (field f) := by
  intro request
  have behind : (field f).idxOf 32 = f.1.length + (1 + f.2.idxOf 32) := by
    rw [field, List.idxOf_append_of_notMem name, List.idxOf_cons_ne _ (by decide)]
    omega
  have colon : (58 : UInt8) ∈ (field f).take (f.1.length + (1 + f.2.idxOf 32)) := by
    rw [field, List.take_length_add_append, Nat.add_comm 1, List.take_succ_cons]
    simp
  unfold partOnRequestLine
  simp only [behind]
  split
  · rfl
  · simp [HttpRequest.setMethod, methodOf_of_mem colon]

/-! ## What it makes of a message and of a part of one -/

section Scan

variable {m} {time : Timestamp} {request : HttpRequest} {p q rest : Bytes}

theorem step_wait {c : HttpContext} (reading : Reading c) (noLine : Buffer.searchCRLF p = none) :
    (lines time).step c p = .wait :=
  (lineStep_waits reading).mpr noLine

theorem step_requestLine (m : Message) (time : Timestamp) (rest : Bytes) :
    (lines time).step {} (m.requestLine ++ crlf ++ rest) =
      .next ⟨m.opening time, .headers⟩ m.head := by
  have found := Buffer.searchCRLF_line m.requestLine_plain rest
  have line : (m.requestLine ++ crlf ++ rest).take m.requestLine.length = m.requestLine := by
    rw [List.append_assoc, List.take_left' rfl]
  rw [m.line.step_text found line, m.told_line]
  rfl

theorem step_field {f : Bytes × Bytes} (name : 58 ∉ f.1 ∧ 13 ∉ f.1) (value : 13 ∉ f.2)
    (rest : Bytes) :
    (lines time).step ⟨request, .headers⟩ (field f ++ crlf ++ rest) =
      .next ⟨addField request f, .headers⟩ ((field f).length + 2) := by
  have found := Buffer.searchCRLF_line (field_plain name.2 value) rest
  have line : (field f ++ crlf ++ rest).take (field f).length = field f := by
    rw [List.append_assoc, List.take_left' rfl]
  have colon : (field f).idxOf 58 = f.1.length := idxOf_behind name.1 _
  have inside : f.1.length ≠ (field f).length := by simp [field]
  have before : (field f).take f.1.length = f.1 := List.take_left' rfl
  have behind : (field f).drop (f.1.length + 1) = f.2 := by
    rw [field, List.append_cons, List.drop_left' (by simp)]
  simp only [lines, lineStep, found, line, colon, if_pos inside, HttpRequest.addHeader, before,
    behind, addField]

theorem step_blank (rest : Bytes) :
    (lines time).step ⟨request, .headers⟩ (crlf ++ rest) = .done true ⟨request, .ended⟩ 2 := by
  have found : Buffer.searchCRLF (crlf ++ rest) = some 0 :=
    @Buffer.searchCRLF_line [] (by simp) rest
  simp [lines, lineStep, found]

theorem drop_line (line rest : Bytes) : (line ++ crlf ++ rest).drop (line.length + 2) = rest :=
  List.drop_left' (by simp [crlf])

theorem scan_block {fields : List (Bytes × Bytes)}
    (names : ∀ f ∈ fields, 58 ∉ f.1 ∧ 13 ∉ f.1) (values : ∀ f ∈ fields, 13 ∉ f.2)
    (request : HttpRequest) (rest : Bytes) :
    (lines time).scan ⟨request, .headers⟩ (block fields ++ rest) =
      ⟨⟨fields.foldl addField request, .ended⟩, rest, some true⟩ := by
  induction fields generalizing request with
  | nil =>
      rw [block, Scanner.scan_done (step_blank rest)]
      rfl
  | cons f fields ih =>
      obtain ⟨name, names⟩ := List.forall_mem_cons.mp names
      obtain ⟨value, values⟩ := List.forall_mem_cons.mp values
      have step := @step_field time request f name value (block fields ++ rest)
      rw [block, List.append_assoc, Scanner.scan_next step, drop_line]
      exact ih names values _

/-- **A message is parsed into what it means**, whatever follows it. -/
theorem scan_message (m : Message) (time : Timestamp) (rest : Bytes) :
    (lines time).scan {} (m.encode ++ rest) = ⟨⟨m.meaning time, .ended⟩, rest, some true⟩ := by
  have step := step_requestLine m time (block m.fields ++ rest)
  rw [encode, List.append_assoc, Scanner.scan_next step, head, drop_line]
  exact scan_block (fun f mem => ⟨(m.names f mem).1, (m.names f mem).2.2⟩) m.values _ rest

/-- Less than the request line is left alone. -/
theorem scan_short (split : p ++ q = m.encode) (short : p.length < m.head) :
    (lines time).scan {} p = ⟨{}, p, none⟩ := by
  have noLine : Buffer.searchCRLF p = none := searchCRLF_short m.requestLine_plain split short
  exact Scanner.scan_wait (step_wait (.inl rfl) noLine)

/-- What is left of a message that has been begun: no whole line, and with the rest
of the message, `q`, a line that a new parser rejects. -/
def Begun (left q : Bytes) : Prop :=
  ∃ line rest, left ++ q = line ++ crlf ++ rest ∧ 13 ∉ line ∧ Rejected line ∧
    Buffer.searchCRLF left = none

/-- A parser that is given less than the next line keeps it. -/
theorem begun_short {line : Bytes} (split : p ++ q = line ++ crlf ++ rest) (plain : 13 ∉ line)
    (rejected : Rejected line) (short : p.length < line.length + 2) (request : HttpRequest) :
    ∃ c left, (lines time).scan ⟨request, .headers⟩ p = ⟨c, left, none⟩ ∧
      c.part = .headers ∧ Begun left q := by
  have noLine := searchCRLF_short plain split short
  have waits : (lines time).step ⟨request, .headers⟩ p = .wait := step_wait (.inr rfl) noLine
  exact ⟨_, p, Scanner.scan_wait waits, rfl, line, rest, split, plain, rejected, noLine⟩

theorem begun_block {fields : List (Bytes × Bytes)}
    (names : ∀ f ∈ fields, 58 ∉ f.1 ∧ 32 ∉ f.1 ∧ 13 ∉ f.1) (values : ∀ f ∈ fields, 13 ∉ f.2)
    (request : HttpRequest) (split : p ++ q = block fields) (more : q ≠ []) :
    ∃ c left, (lines time).scan ⟨request, .headers⟩ p = ⟨c, left, none⟩ ∧
      c.part = .headers ∧ Begun left q := by
  induction fields generalizing request p with
  | nil =>
      have blank : p ++ q = [] ++ crlf ++ [] := split
      have short : p.length < ([] : Bytes).length + 2 := by
        have size := congrArg List.length split
        have := List.length_pos_iff.mpr more
        simp only [block, crlf, List.length_append, List.length_cons, List.length_nil] at size ⊢
        omega
      exact begun_short blank (by simp) rejected_blank short request
  | cons f fields ih =>
      obtain ⟨⟨colon, noBlank, noCR⟩, names⟩ := List.forall_mem_cons.mp names
      obtain ⟨value, values⟩ := List.forall_mem_cons.mp values
      have plain := field_plain noCR value
      by_cases short : p.length < (field f).length + 2
      · exact begun_short split plain (rejected_field noBlank) short request
      · obtain ⟨p', rfl, split'⟩ := split_behind_line split (by omega)
        have step := @step_field time request f ⟨colon, noCR⟩ value p'
        rw [Scanner.scan_next step, drop_line]
        exact ih names values _ split'

/-- Behind the request line the parser has begun the message. -/
theorem scan_begun (split : p ++ q = m.encode) (long : m.head ≤ p.length) (more : q ≠ []) :
    ∃ c left, (lines time).scan {} p = ⟨c, left, none⟩ ∧ c.part = .headers ∧ Begun left q := by
  obtain ⟨p', rfl, split'⟩ := split_behind_line split long
  rw [Scanner.scan_next (step_requestLine m time p'), head, drop_line]
  exact begun_block m.names m.values _ split' more

end Scan

end Message

end LaliRpc.Net
