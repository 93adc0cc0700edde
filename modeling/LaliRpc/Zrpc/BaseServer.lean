/-
# Zrpc.BaseServer — the server's message loop

`BaseServer::handleMessage` and `onMessage`, over any request handler. The loop
takes the whole buffer as one request once a complete message is at its front,
so a stream of requests is reassembled exactly when every frame ends where a
read ends (`server_framing_iff`). It breaks behind a blank line, and what has
come in behind that waits for the next read (`drained_iff`).
-/
import LaliRpc.Zrpc.Message

namespace LaliRpc.Zrpc.BaseServer

open LaliRpc.Jackson LaliRpc.Net LaliRpc.Theory LaliRpc.Theory.Framing

set_option autoImplicit false

def kMaxMessageLen : Nat := 100 * 1024 * 1024

section Loop

variable {ε : Type} (handleRequest : Bytes → Exec ε Thrown Unit)

/-- One pass of the loop of `handleMessage`. -/
def handleMessagePass (buffer : Buffer) : Pass Buffer ε Thrown :=
  match buffer.findCRLF with
  | none => .stop buffer
  | some offset =>
      if offset = 0 then .stop (buffer.retrieve 2)
      else
        match headerLength (buffer.readable.take (offset + 2)) with
        | .error t => .raise buffer [] t
        | .ok none => .raise buffer [] (.cstr "invalid message length")
        | .ok (some jsonLen) =>
            if kMaxMessageLen ≤ jsonLen then .raise buffer [] (.cstr "message is too long")
            else dispatchMessage handleRequest buffer (offset + 2) jsonLen

variable {handleRequest}

/-- A pass that repeats has dispatched a message. -/
theorem handleMessagePass_next {b s : Buffer} {es : List ε}
    (h : handleMessagePass handleRequest b = .next s es) :
    0 < b.readableBytes ∧ ∃ n, s = (b.retrieve n).retrieveAll := by
  unfold handleMessagePass at h
  split at h
  · cases h
  · rename_i offset found
    split at h
    · cases h
    · split at h
      · cases h
      · cases h
      · split at h
        · cases h
        · exact ⟨findCRLF_pos found, _, dispatchMessage_next h⟩

variable (handleRequest)

def handleMessage : Loop Buffer ε Thrown where
  body := handleMessagePass handleRequest
  measure := Buffer.readableBytes
  decreases b s es h := by
    obtain ⟨positive, n, rfl⟩ := handleMessagePass_next h
    rw [Buffer.readableBytes_retrieveAll]
    exact positive

/-- `onMessage` catches C strings and nothing else. -/
def onMessage (buffer : Buffer) : Ended Buffer ε Thrown :=
  let ended := (handleMessage handleRequest).run buffer
  match ended.thrown with
  | some (.cstr _) => { ended with thrown := none }
  | _ => ended

theorem handleMessagePass_waits {b : Buffer} (noLine : b.findCRLF = none) :
    handleMessagePass handleRequest b = .stop b := by
  simp only [handleMessagePass, noLine]

theorem valid_handleMessagePass {b : Buffer} (valid : b.Valid) :
    (handleMessagePass handleRequest b).ended.state.Valid := by
  unfold handleMessagePass
  split
  · exact valid
  · split
    · exact Buffer.valid_retrieve valid 2
    · split
      · exact valid
      · exact valid
      · split
        · exact valid
        · exact valid_dispatchMessage valid _ _

theorem handlesFrames :
    HandlesFrames kMaxMessageLen handleRequest (handleMessage handleRequest) where
  valid _ valid := valid_handleMessagePass handleRequest valid
  repeats b s es again := by
    obtain ⟨-, n, rfl⟩ := handleMessagePass_next again
    exact findCRLF_retrieveAll _
  waits _ noLine := handleMessagePass_waits handleRequest noLine
  dispatches b i n found pos line small := by
    show handleMessagePass handleRequest b = _
    simp only [handleMessagePass, found, line, if_neg (Nat.ne_of_gt pos),
      if_neg (Nat.not_le_of_lt small)]

/-! ## What a call leaves in the buffer -/

/-- A header line that declares a length, and as many bytes behind it. -/
def Complete (p : Bytes) : Prop :=
  ∃ i n, Buffer.searchCRLF p = some i ∧ 0 < i ∧ headerLength (p.take (i + 2)) = .ok (some n) ∧
    i + 2 + n ≤ p.length

/-- Blank lines, if any, and a complete frame behind them. -/
inductive Ready : Bytes → Prop
  | frame {p : Bytes} : Complete p → Ready p
  | blank {p : Bytes} : Ready p → Ready (crlf ++ p)

section Left

variable {p : Bytes} {b : Buffer}

theorem searchCRLF_blank (p : Bytes) : Buffer.searchCRLF (crlf ++ p) = some 0 :=
  @Buffer.searchCRLF_line [] (by simp) p

theorem not_ready_of_noLine (noLine : Buffer.searchCRLF p = none) : ¬ Ready p := by
  intro ready
  cases ready with
  | frame complete =>
      obtain ⟨i, n, found, -⟩ := complete
      rw [noLine] at found
      cases found
  | blank ready =>
      rw [searchCRLF_blank] at noLine
      cases noLine

/-- What a peer sends as a frame is one. -/
theorem complete_frame {text : Bytes} (small : text.length + 2 < 2 ^ 31) :
    Complete (frame text) := by
  have line : (frame text).take ((toDecimal (text.length + 2)).length + 2) = header text := by
    rw [← header_length, frame_eq, List.take_left' rfl]
  refine ⟨(toDecimal (text.length + 2)).length, text.length + 2, ?_,
    List.length_pos_iff.mpr (toDecimal_ne_nil _), ?_, ?_⟩
  · exact frame_eq text ▸ searchCRLF_header text (text ++ crlf)
  · rw [line, headerLength_header small]
  · rw [frame_eq, ← header_length]
    simp [crlf]

/-- At a line that is not blank nothing but a complete frame counts. -/
theorem ready_line_iff {i : Nat} (found : Buffer.searchCRLF p = some i) (pos : 0 < i) :
    Ready p ↔ Complete p := by
  constructor
  · intro ready
    cases ready with
    | frame complete => exact complete
    | blank ready =>
        rw [searchCRLF_blank] at found
        cases found
        cases pos
  · exact Ready.frame

/-- A pass that goes on or breaks behind a header has found its frame incomplete, or
has emptied the buffer. -/
theorem drained_dispatch (valid : b.Valid) {i n : Nat} (found : b.findCRLF = some i) (pos : 0 < i)
    (line : headerLength (b.readable.take (i + 2)) = .ok (some n)) :
    ¬ Ready (dispatchMessage handleRequest b (i + 2) n).ended.state.readable := by
  unfold dispatchMessage
  split
  · rename_i short
    show ¬ Ready b.readable
    rw [ready_line_iff found pos]
    rintro ⟨i', n', found', -, line', enough⟩
    obtain rfl : i = i' := Option.some.inj (found.symm.trans found')
    obtain rfl : n = n' := by simpa using line.symm.trans line'
    rw [Buffer.length_readable valid] at enough
    omega
  · have empty : ¬ Ready ((b.retrieve (i + 2)).retrieveAll).readable :=
      not_ready_of_noLine (findCRLF_retrieveAll _)
    dsimp only
    split
    · exact empty
    · exact empty

/-- The four exits of a pass: no line, a blank one, a header that is refused, and one
behind which a frame is expected. -/
theorem pass_drained (valid : b.Valid) :
    let ended := (handleMessagePass handleRequest b).ended
    (ended.thrown = none → ¬ Ready ended.state.readable) ↔
      ¬ ∃ rest, b.readable = crlf ++ rest ∧ Ready rest := by
  intro ended
  have notBlank : ∀ {i}, b.findCRLF = some i → 0 < i →
      ¬ ∃ rest, b.readable = crlf ++ rest ∧ Ready rest := by
    rintro i found pos ⟨rest, shape, -⟩
    rw [Buffer.findCRLF, shape, searchCRLF_blank] at found
    cases found
    cases pos
  simp only [ended, handleMessagePass]
  split
  · rename_i noLine
    refine iff_of_true (fun _ => not_ready_of_noLine noLine) ?_
    rintro ⟨rest, shape, -⟩
    rw [Buffer.findCRLF, shape, searchCRLF_blank] at noLine
    cases noLine
  · rename_i i found
    split
    · rename_i zero
      subst zero
      have shape := (Buffer.searchCRLF_some found).2
      rw [List.take_zero, List.nil_append, Nat.zero_add] at shape
      have left : (b.retrieve 2).readable = b.readable.drop 2 := Buffer.readable_retrieve valid 2
      simp only [Pass.ended, left, true_implies, not_iff_not]
      constructor
      · intro ready
        exact ⟨_, shape, ready⟩
      · rintro ⟨rest, shape', ready⟩
        rw [shape'] at shape ⊢
        rwa [← List.append_cancel_left shape]
    · rename_i notZero
      have pos := Nat.pos_of_ne_zero notZero
      split
      · refine iff_of_true (fun none => ?_) (notBlank found pos)
        cases none
      · refine iff_of_true (fun none => ?_) (notBlank found pos)
        cases none
      · rename_i n line
        split
        · refine iff_of_true (fun none => ?_) (notBlank found pos)
          cases none
        · exact iff_of_true (fun _ => drained_dispatch handleRequest valid found pos line)
            (notBlank found pos)

/-- **A call drains the buffer** unless it breaks behind a blank line with more to come:
it returns, and what a normal return leaves does not begin with a complete frame, or with
blank lines and one, exactly when the buffer did not begin with blank lines and one. -/
theorem drained_iff (valid : b.Valid) :
    ∃ ended, (∃ n, spin (handleMessagePass handleRequest) n b = some ended) ∧
      ((ended.thrown = none → ¬ Ready ended.state.readable) ↔
        ¬ ∃ rest, b.readable = crlf ++ rest ∧ Ready rest) := by
  refine ⟨_, ⟨_, (handleMessage handleRequest).spin_measure b⟩, ?_⟩
  rw [(handlesFrames handleRequest).run_eq b]
  exact pass_drained handleRequest valid

/-- Nothing is left of a frame. -/
theorem drained_frame : ∃ ended,
    (∃ n, spin (handleMessagePass (Exec.emit : Bytes → Exec Bytes Thrown Unit)) n
      (Buffer.fresh.append (frame (ascii "1"))) = some ended) ∧
    ((ended.thrown = none → ¬ Ready ended.state.readable) ↔
      ¬ ∃ rest, (Buffer.fresh.append (frame (ascii "1"))).readable = crlf ++ rest ∧ Ready rest) :=
  drained_iff Exec.emit (Buffer.valid_append Buffer.valid_fresh _)

/-- Behind a blank line a whole frame is left. -/
theorem blank_leaves_frame : ∃ ended,
    spin (handleMessagePass (Exec.emit : Bytes → Exec Bytes Thrown Unit)) 1
      (Buffer.fresh.append (ascii "\r\n3\r\n1\r\n")) = some ended ∧
    ended.thrown = none ∧ ended.events = [] ∧
    ended.state.readable = ascii "3\r\n1\r\n" ∧ Ready ended.state.readable := by
  have valid := Buffer.valid_append Buffer.valid_fresh (ascii "\r\n3\r\n1\r\n")
  have held : (Buffer.fresh.append (ascii "\r\n3\r\n1\r\n")).readable =
      crlf ++ frame (ascii "1") := by
    rw [Buffer.readable_append Buffer.valid_fresh]
    decide +kernel
  have found : (Buffer.fresh.append (ascii "\r\n3\r\n1\r\n")).findCRLF = some 0 := by
    rw [Buffer.findCRLF, held, searchCRLF_blank]
  have left : ((Buffer.fresh.append (ascii "\r\n3\r\n1\r\n")).retrieve 2).readable =
      frame (ascii "1") := by
    rw [Buffer.readable_retrieve valid, held]
    rfl
  refine ⟨⟨(Buffer.fresh.append (ascii "\r\n3\r\n1\r\n")).retrieve 2, [], none⟩, ?_, rfl, rfl, ?_⟩
  · simp only [spin, handleMessagePass, found, if_true]
  · rw [left]
    exact ⟨by decide +kernel, .frame (complete_frame (by decide))⟩

end Left

end Loop

/-! ## Framing -/

/-- The server's loop, recording the requests it hands to `handleRequest`. -/
def requests : Loop Buffer Bytes Thrown := handleMessage Exec.emit

/-- The requests handed on by each of a sequence of reads, and the final buffer. -/
def serve (reads : List Bytes) : List (List Bytes) × Buffer :=
  feed (receiver requests) Buffer.fresh reads

def encode (body : Text kMaxMessageLen) : Bytes := frame body.1

/-- **The server reassembles a stream of requests exactly when every frame ends
where a read ends.** -/
theorem server_framing_iff (bodies : List (Text kMaxMessageLen)) (reads : List Bytes)
    (whole : reads.flatten = stream encode bodies) :
    Delivers encode (fun body => body.1 ++ crlf) bodies reads (serve reads).1
        (serve reads).2.readable ↔
      Aligned encode bodies reads :=
  delivers_iff_aligned ((handlesFrames Exec.emit).drains (by decide)) Buffer.valid_fresh
    Buffer.readable_fresh whole

/-! ### Two frames -/

def twoBodies : List (Text kMaxMessageLen) := [⟨ascii "1", by decide⟩, ⟨ascii "2", by decide⟩]

theorem twoBodies_separately :
    Delivers encode (fun body => body.1 ++ crlf) twoBodies (twoBodies.map encode)
      (serve (twoBodies.map encode)).1 (serve (twoBodies.map encode)).2.readable := by
  refine (server_framing_iff twoBodies (twoBodies.map encode) (by decide)).mpr ?_
  intro i hi
  exact ⟨i, hi, by revert i; decide⟩

/-- Both frames in one read are handed on as one request. -/
theorem twoBodies_at_once :
    [stream encode twoBodies].flatten = stream encode twoBodies ∧
      (serve [stream encode twoBodies]).1 = [[ascii "1\r\n3\r\n2\r\n"]] ∧
      ¬ Delivers encode (fun body => body.1 ++ crlf) twoBodies [stream encode twoBodies]
        (serve [stream encode twoBodies]).1 (serve [stream encode twoBodies]).2.readable := by
  have handed : (serve [stream encode twoBodies]).1 = [[ascii "1\r\n3\r\n2\r\n"]] := by
    decide +kernel
  refine ⟨by simp, handed, fun delivers => ?_⟩
  have first := delivers.onTime 1 (by decide)
  rw [handed] at first
  revert first
  decide +kernel

end LaliRpc.Zrpc.BaseServer
