/-
# Zrpc.RpcClient — the client's calls and its message loop

A call gets the next id, under which its callback is kept (`sendCall`).

`RpcClient::handleMessage`, a separate implementation of the server's loop. It
has no branch for an empty line, a header that declares no length is consumed
before the throw, and its faults are `Exception`s. Like the server's it takes
the whole buffer as one message, so it too reassembles a stream exactly when
every frame ends where a read ends (`client_framing_iff`).
-/
import LaliRpc.Zrpc.Message

namespace LaliRpc.Zrpc

open LaliRpc.Jackson LaliRpc.Net LaliRpc.Theory LaliRpc.Theory.Framing

set_option autoImplicit false

/-- A client, with an opaque token for each response callback. -/
structure RpcClient (ρ : Type) where
  id : Int64
  callbacks : Table Int64 ρ

namespace RpcClient

/-- `sendCall`, and the request it hands to `sendRequest`. -/
def sendCall {ρ : Type} (client : RpcClient ρ) (call : Value) (cb : ρ) :
    Except Thrown (RpcClient ρ × Value) := do
  let call ← call.addMember (ascii "id") (.int64 client.id)
  return (⟨client.id + 1, client.callbacks.assign client.id cb⟩, call)

/-! ## The message loop -/

def kMaxMessageLen : Nat := 65536

section Loop

variable {ε : Type} (handleResponse : Bytes → Exec ε Thrown Unit)

/-- One pass of the loop of `handleMessage`. -/
def handleMessagePass (buffer : Buffer) : Pass Buffer ε Thrown :=
  match buffer.findCRLF with
  | none => .stop buffer
  | some offset =>
      match headerLength (buffer.readable.take (offset + 2)) with
      | .error t => .raise buffer [] t
      | .ok none =>
          .raise (buffer.retrieve (offset + 2)) [] (.exception "invalid message length")
      | .ok (some bodyLen) =>
          if kMaxMessageLen ≤ bodyLen then .raise buffer [] (.exception "message is too long")
          else dispatchMessage handleResponse buffer (offset + 2) bodyLen

variable {handleResponse}

theorem handleMessagePass_next {b s : Buffer} {es : List ε}
    (h : handleMessagePass handleResponse b = .next s es) :
    0 < b.readableBytes ∧ ∃ n, s = (b.retrieve n).retrieveAll := by
  unfold handleMessagePass at h
  split at h
  · cases h
  · rename_i offset found
    split at h
    · cases h
    · cases h
    · split at h
      · cases h
      · exact ⟨findCRLF_pos found, _, dispatchMessage_next h⟩

variable (handleResponse)

def handleMessage : Loop Buffer ε Thrown where
  body := handleMessagePass handleResponse
  measure := Buffer.readableBytes
  decreases b s es h := by
    obtain ⟨positive, n, rfl⟩ := handleMessagePass_next h
    rw [Buffer.readableBytes_retrieveAll]
    exact positive

theorem valid_handleMessagePass {b : Buffer} (valid : b.Valid) :
    (handleMessagePass handleResponse b).ended.state.Valid := by
  unfold handleMessagePass
  split
  · exact valid
  · split
    · exact valid
    · exact Buffer.valid_retrieve valid _
    · split
      · exact valid
      · exact valid_dispatchMessage valid _ _

theorem handlesFrames :
    HandlesFrames kMaxMessageLen handleResponse (handleMessage handleResponse) where
  valid _ valid := valid_handleMessagePass handleResponse valid
  repeats b s es again := by
    obtain ⟨-, n, rfl⟩ := handleMessagePass_next again
    exact findCRLF_retrieveAll _
  waits b noLine := by
    show handleMessagePass handleResponse b = _
    simp only [handleMessagePass, noLine]
  dispatches b i n found _ line small := by
    show handleMessagePass handleResponse b = _
    simp only [handleMessagePass, found, line, if_neg (Nat.not_le_of_lt small)]

end Loop

/-! ## Framing -/

/-- The client's loop, recording the texts it hands to `handleResponse`. -/
def responses : Loop Buffer Bytes Thrown := handleMessage Exec.emit

/-- The texts handed on by each of a sequence of reads, and the final buffer. -/
def listen (reads : List Bytes) : List (List Bytes) × Buffer :=
  feed (receiver responses) Buffer.fresh reads

def encode (text : Text kMaxMessageLen) : Bytes := frame text.1

/-- **The client reassembles a stream of responses exactly when every frame ends
where a read ends.** -/
theorem client_framing_iff (texts : List (Text kMaxMessageLen)) (reads : List Bytes)
    (whole : reads.flatten = stream encode texts) :
    Delivers encode (fun text => text.1 ++ crlf) texts reads (listen reads).1
        (listen reads).2.readable ↔
      Aligned encode texts reads :=
  delivers_iff_aligned ((handlesFrames Exec.emit).drains (by decide)) Buffer.valid_fresh
    Buffer.readable_fresh whole

/-! ### Two frames -/

def twoTexts : List (Text kMaxMessageLen) := [⟨ascii "1", by decide⟩, ⟨ascii "2", by decide⟩]

theorem twoTexts_separately :
    Delivers encode (fun text => text.1 ++ crlf) twoTexts (twoTexts.map encode)
      (listen (twoTexts.map encode)).1 (listen (twoTexts.map encode)).2.readable := by
  refine (client_framing_iff twoTexts (twoTexts.map encode) (by decide)).mpr ?_
  intro i hi
  exact ⟨i, hi, by revert i; decide⟩

/-- One frame and a part of the next: the part is handed on with the first text. -/
theorem twoTexts_split_late :
    let reads := [ascii "3\r\n1\r\n3\r", ascii "\n2\r\n"]
    reads.flatten = stream encode twoTexts ∧
      (listen reads).1 = [[ascii "1\r\n3\r"], []] ∧
      ¬ Delivers encode (fun text => text.1 ++ crlf) twoTexts reads (listen reads).1
        (listen reads).2.readable := by
  intro reads
  have handed : (listen reads).1 = [[ascii "1\r\n3\r"], []] := by
    decide +kernel
  refine ⟨by decide, handed, fun delivers => ?_⟩
  have first := delivers.onTime 1 (by decide)
  rw [handed] at first
  revert first
  decide +kernel

end RpcClient

end LaliRpc.Zrpc
