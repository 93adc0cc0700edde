/-
# Zrpc.Message — framed messages

A message is its text and a CR LF, behind a header line with their length
(`frame`). The server and the client have each their own loop over the input
buffer; what the two loops do alike is here. `headerLength` reads a header line.
`dispatchMessage` waits for the declared length, and then hands on the text.
Whatever the declared length was, the text is *everything* behind the header.

`HandlesFrames` collects what a loop has to do with the front of its buffer for
the rest to follow: such a loop drains (`drains_of_handlesFrames`), so it
reassembles a stream exactly when every frame ends where a read ends.
-/
import LaliRpc.Jackson.Reader
import LaliRpc.Net.Buffer
import LaliRpc.Theory.Exec
import LaliRpc.Theory.Framing
import LaliRpc.Theory.Loop

namespace LaliRpc.Zrpc

open LaliRpc.Jackson LaliRpc.Net LaliRpc.Theory LaliRpc.Theory.Framing

set_option autoImplicit false

/-- The bytes `sendRequest` and `sendResponse` build around a text. -/
def frame (text : Bytes) : Bytes := toDecimal (text.length + 2) ++ crlf ++ text ++ crlf

/-- The length a header line declares: `none` when it is not a positive int32. -/
def headerLength (line : Bytes) : Except Thrown (Option Nat) :=
  match parse line with
  | .error .assertion => .error .assertion
  | .ok (.int32 n) => .ok (if n ≤ 0 then none else some n.toUInt32.toNat)
  | _ => .ok none

/-- A header line fails only an assertion, the parser's own. -/
theorem headerLength_error_iff {line : Bytes} {t : Thrown} :
    headerLength line = .error t ↔ parse line = .error .assertion ∧ t = .assertion := by
  unfold headerLength
  cases parse line with
  | error fault =>
      cases fault with
      | assertion => simp [eq_comm]
      | error e => simp
  | ok v => cases v <;> simp

section Dispatch

variable {ε : Type}

/-- The loop body behind the header checks. -/
def dispatchMessage (handle : Bytes → Exec ε Thrown Unit) (buffer : Buffer)
    (headerLen bodyLen : Nat) : Pass Buffer ε Thrown :=
  if buffer.readableBytes < headerLen + bodyLen then .stop buffer
  else
    let json := (buffer.retrieve headerLen).retrieveAsString
    match (handle json.1).result with
    | .ok _ => .next json.2 (handle json.1).events
    | .error t => .raise json.2 (handle json.1).events t

variable {handle : Bytes → Exec ε Thrown Unit} {b : Buffer}

/-- Only a dispatched message repeats the loop, and it leaves nothing in the buffer. -/
theorem dispatchMessage_next {headerLen bodyLen : Nat} {s : Buffer} {es : List ε}
    (h : dispatchMessage handle b headerLen bodyLen = .next s es) :
    s = (b.retrieve headerLen).retrieveAll := by
  unfold dispatchMessage at h
  split at h
  · cases h
  · dsimp only at h
    split at h
    · cases h
      rfl
    · cases h

theorem valid_dispatchMessage (valid : b.Valid) (headerLen bodyLen : Nat) :
    (dispatchMessage handle b headerLen bodyLen).ended.state.Valid := by
  have emptied := Buffer.valid_retrieveAll (Buffer.valid_retrieve valid headerLen)
  unfold dispatchMessage
  split
  · exact valid
  · dsimp only
    split
    · exact emptied
    · exact emptied

/-- An incomplete message stays in the buffer. -/
theorem dispatchMessage_waits {headerLen bodyLen : Nat}
    (short : b.readableBytes < headerLen + bodyLen) :
    dispatchMessage handle b headerLen bodyLen = .stop b := if_pos short

/-- Recording a message throws nothing. -/
theorem dispatchMessage_emit (b : Buffer) (headerLen bodyLen : Nat) :
    (dispatchMessage Exec.emit b headerLen bodyLen).ended.thrown = none := by
  unfold dispatchMessage
  split <;> rfl

/-- A complete message takes everything behind the header with it. -/
theorem dispatchMessage_arrived (handle : Bytes → Exec ε Thrown Unit) (valid : b.Valid)
    {header text : Bytes} {bodyLen : Nat} (whole : b.readable = header ++ text)
    (enough : bodyLen ≤ text.length) :
    (dispatchMessage handle b header.length bodyLen).ended =
      ⟨(b.retrieve header.length).retrieveAll, (handle text).events, (handle text).thrown⟩ := by
  have size : ¬ b.readableBytes < header.length + bodyLen := by
    rw [← Buffer.length_readable valid, whole, List.length_append]
    omega
  have behind : (b.retrieve header.length).readable = text := by
    rw [Buffer.readable_retrieve valid, whole, List.drop_left]
  simp only [dispatchMessage, if_neg size, Buffer.retrieveAsString, behind, Exec.thrown]
  cases (handle text).result <;> rfl

theorem findCRLF_pos {i : Nat} (found : b.findCRLF = some i) : 0 < b.readableBytes := by
  have := (Buffer.searchCRLF_some found).1
  have := b.length_readable_le
  omega

theorem findCRLF_retrieveAll (b : Buffer) : b.retrieveAll.findCRLF = none := by
  simp [Buffer.findCRLF, Buffer.searchCRLF]

end Dispatch

/-! ## Prefixes of a frame -/

/-- A text whose frame is below a limit. -/
abbrev Text (limit : Nat) := { text : Bytes // text.length + 2 < limit }

/-- The bytes a frame puts before its text. -/
def header (text : Bytes) : Bytes := toDecimal (text.length + 2) ++ crlf

theorem frame_eq (text : Bytes) : frame text = header text ++ (text ++ crlf) := by
  simp [frame, header]

theorem frame_ne_nil (text : Bytes) : frame text ≠ [] := by
  simp [frame, crlf]

theorem cr_not_mem (n : Nat) : 13 ∉ toDecimal n := not_mem_toDecimal_of_not_digit (by decide)

theorem header_length (text : Bytes) :
    (header text).length = (toDecimal (text.length + 2)).length + 2 := by
  simp [header, crlf]

/-- The header line a frame starts with. -/
theorem searchCRLF_header (text rest : Bytes) :
    Buffer.searchCRLF (header text ++ rest) = some (toDecimal (text.length + 2)).length :=
  Buffer.searchCRLF_line (cr_not_mem _) rest

theorem headerLength_header {text : Bytes} (small : text.length + 2 < 2 ^ 31) :
    headerLength (header text) = .ok (some (text.length + 2)) := by
  have positive : ¬ Int32.ofInt ((text.length + 2 : Nat) : Int) ≤ 0 := by
    rw [Int32.le_iff_toInt_le, Int32.toInt_ofInt_of_le (by omega) (by omega)]
    simp
    omega
  have value : (Int32.ofInt ((text.length + 2 : Nat) : Int)).toUInt32.toNat = text.length + 2 := by
    show (BitVec.ofInt 32 _).toNat = _
    rw [BitVec.toNat_ofInt]
    omega
  rw [headerLength, header, parse_toDecimal (by omega) small]
  simp only [if_neg positive, value]

/-- A header whose length does not fit 32 bits declares none. -/
theorem headerLength_header_big {text : Bytes} (big : 2 ^ 31 ≤ text.length + 2) :
    headerLength (header text) = .ok none := by
  rw [headerLength, header]
  rcases parse_toDecimal_big big with ⟨i, parsed⟩ | parsed <;> rw [parsed]

/-- A proper beginning of a header has no complete line. -/
theorem searchCRLF_short {text p rest : Bytes} (split : p ++ rest = frame text)
    (short : p.length < (header text).length) : Buffer.searchCRLF p = none := by
  apply Buffer.searchCRLF_none
  intro mem
  have line : frame text = (toDecimal (text.length + 2) ++ [13]) ++ ([10] ++ text ++ crlf) := by
    simp [frame, crlf]
  have inLine : p <+: toDecimal (text.length + 2) ++ [13] := by
    rw [header_length] at short
    refine List.prefix_of_prefix_length_le ⟨rest, split⟩ ⟨_, line.symm⟩ ?_
    simp
    omega
  have before : p.dropLast <+: toDecimal (text.length + 2) := by
    obtain ⟨t, ht⟩ := inLine
    refine List.prefix_of_prefix_length_le ⟨p.getLast?.toList ++ t, ?_⟩
      (List.prefix_append _ [13]) ?_
    · rw [← ht, ← List.append_assoc]
      congr 1
      cases p with
      | nil => rfl
      | cons c p => simp [List.dropLast_append_getLast?, List.getLast?_eq_some_getLast]
    · rw [header_length] at short
      simp
      omega
  exact cr_not_mem _ (before.subset mem)

/-! ## Loops that handle frames -/

/-- What a read does to the input buffer of a connection: the bytes are
appended, and the loop runs, recording what it dispatches. -/
def receiver (loop : Loop Buffer Bytes Thrown) : Receiver Buffer UInt8 Bytes where
  read b got :=
    let ended := loop.run (b.readFd got)
    (ended.state, ended.events)
  pending := Buffer.readable
  Ok := Buffer.Valid

/-- The loop waits for a header line, and dispatches the message behind one that
declares a length below the limit. -/
structure HandlesFrames {ε : Type} (limit : Nat) (handle : Bytes → Exec ε Thrown Unit)
    (loop : Loop Buffer ε Thrown) : Prop where
  valid : ∀ b, b.Valid → (loop.body b).ended.state.Valid
  repeats : ∀ b s es, loop.body b = .next s es → s.findCRLF = none
  waits : ∀ b, b.findCRLF = none → loop.body b = .stop b
  dispatches : ∀ b i n, b.findCRLF = some i → 0 < i →
    headerLength (b.readable.take (i + 2)) = .ok (some n) → n < limit →
    loop.body b = dispatchMessage handle b (i + 2) n

namespace HandlesFrames

section Front

variable {ε : Type} {limit : Nat} {handle : Bytes → Exec ε Thrown Unit} {loop : Loop Buffer ε Thrown}

/-- **The loop goes round once.** What it dispatches is everything it has. -/
theorem run_eq (h : HandlesFrames limit handle loop) (b : Buffer) :
    loop.run b = (loop.body b).ended :=
  loop.run_once fun s es again => h.waits s (h.repeats b s es again)

/-- Behind the header of a frame the loop is at `dispatchMessage`. -/
theorem body_header (h : HandlesFrames limit handle loop) (le : limit ≤ 2 ^ 31)
    (text : Text limit) {b : Buffer} {rest : Bytes} (front : b.readable = header text.1 ++ rest) :
    loop.body b = dispatchMessage handle b (header text.1).length (text.1.length + 2) := by
  have small := text.2
  have found : b.findCRLF = some (toDecimal (text.1.length + 2)).length := by
    rw [Buffer.findCRLF, front, searchCRLF_header]
  have line : headerLength (b.readable.take ((toDecimal (text.1.length + 2)).length + 2)) =
      .ok (some (text.1.length + 2)) := by
    rw [front, ← header_length, List.take_left, headerLength_header (by omega)]
  rw [header_length]
  exact h.dispatches b _ _ found (List.length_pos_iff.mpr (toDecimal_ne_nil _)) line small

/-- A frame at the front of the buffer is handed on with everything behind it. -/
theorem run_frame (h : HandlesFrames limit handle loop) (le : limit ≤ 2 ^ 31)
    (text : Text limit) {b : Buffer} (valid : b.Valid) {rest : Bytes}
    (front : b.readable = frame text.1 ++ rest) :
    loop.run b = ⟨(b.retrieve (header text.1).length).retrieveAll,
      (handle (text.1 ++ crlf ++ rest)).events, (handle (text.1 ++ crlf ++ rest)).thrown⟩ := by
  have front' : b.readable = header text.1 ++ (text.1 ++ crlf ++ rest) := by
    rw [front, frame_eq, List.append_assoc]
  have enough : text.1.length + 2 ≤ (text.1 ++ crlf ++ rest).length := by
    simp [crlf]
  rw [h.run_eq, h.body_header le text front']
  exact dispatchMessage_arrived handle valid front' enough

/-- An incomplete frame stays in the buffer. -/
theorem run_part (h : HandlesFrames limit handle loop) (le : limit ≤ 2 ^ 31)
    (text : Text limit) {b : Buffer} (valid : b.Valid) (isPrefix : b.readable <+: frame text.1)
    (ne : b.readable ≠ frame text.1) : loop.run b = ⟨b, [], none⟩ := by
  apply loop.run_stop
  obtain ⟨rest, split⟩ := isPrefix
  rcases Nat.lt_or_ge b.readable.length (header text.1).length with lt | ge
  · exact h.waits _ (searchCRLF_short split lt)
  · obtain ⟨q, front⟩ : header text.1 <+: b.readable :=
      List.prefix_of_prefix_length_le ⟨_, (frame_eq text.1).symm⟩ ⟨rest, split⟩ ge
    have restNe : rest ≠ [] := by
      rintro rfl
      exact ne (by simpa using split)
    rw [h.body_header le text front.symm]
    apply dispatchMessage_waits
    have total := congrArg List.length split
    have positive := List.length_pos_iff.mpr restNe
    have crlfLen : crlf.length = 2 := rfl
    rw [frame_eq] at total
    simp only [List.length_append, crlfLen] at total
    rw [← Buffer.length_readable valid]
    omega

end Front

/-- **A loop that handles frames drains its buffer.** -/
theorem drains {limit : Nat} {loop : Loop Buffer Bytes Thrown}
    (h : HandlesFrames limit Exec.emit loop) (le : limit ≤ 2 ^ 31) :
    Drains (fun text : Text limit => frame text.1) (fun text => text.1 ++ crlf)
      (receiver loop) where
  nonempty text := frame_ne_nil text.1
  ok b got valid := by
    show (loop.run (b.readFd got)).state.Valid
    rw [h.run_eq]
    exact h.valid _ (Buffer.valid_readFd valid got)
  idle b got valid empty := by
    have nothing : (b.readFd got).readable = [] := by
      rw [Buffer.readable_readFd valid]
      exact empty
    have noLine : (b.readFd got).findCRLF = none := by
      rw [Buffer.findCRLF, nothing]
      rfl
    show (loop.run (b.readFd got)).events = [] ∧ (loop.run (b.readFd got)).state.readable = []
    rw [loop.run_stop (h.waits _ noLine)]
    exact ⟨rfl, nothing⟩
  keeps b got text valid isPrefix ne := by
    have held : (b.readFd got).readable = b.readable ++ got := Buffer.readable_readFd valid got
    show (loop.run (b.readFd got)).events = [] ∧ (loop.run (b.readFd got)).state.readable = _
    rw [h.run_part le text (Buffer.valid_readFd valid got) (held ▸ isPrefix) (held ▸ ne)]
    exact ⟨rfl, held⟩
  takes b got text rest valid whole := by
    have held : (b.readFd got).readable = frame text.1 ++ rest :=
      (Buffer.readable_readFd valid got).trans whole
    have taken := h.run_frame le text (Buffer.valid_readFd valid got) held
    refine ⟨text.1 ++ crlf ++ rest, ?_, ?_, by simp⟩
    · show (loop.run (b.readFd got)).events = _
      rw [taken]
      rfl
    · show (loop.run (b.readFd got)).state.readable = _
      rw [taken]
      exact Buffer.readable_retrieveAll _

end HandlesFrames

end LaliRpc.Zrpc
