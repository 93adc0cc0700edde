/-
# Zrpc.Limits — messages over the limit

The two message loops have a limit each, both called `kMaxMessageLen`: 100 MiB in
the server and 64 KiB in the client. What the server sends has no limit, so a
response reaches the client's handler exactly when it is below the client's
(`response_received_iff`).

A header that a loop refuses is a line of its own. The client drops a line that is
no length at all; in every other case the line stays at the front of the buffer,
where it is refused again on every later read (`wedged_of`). A loop therefore
recovers from a state exactly when it does not keep the line that it refuses
(`rejected_header_iff`).
-/
import LaliRpc.Jackson.Writer
import LaliRpc.Zrpc.OnMessage
import LaliRpc.Zrpc.RpcClient

namespace LaliRpc.Zrpc

open LaliRpc.Jackson LaliRpc.Net LaliRpc.Theory LaliRpc.Theory.Framing

set_option autoImplicit false

/-! ## The size of a response -/

/-- The bytes `sendResponse` gives to the connection. -/
def BaseServer.sendResponse (sprintf : Double → Bytes) (response : Value) : Bytes :=
  frame (Writer.write sprintf response)

/-- The client hands on the text, and nothing stays behind. -/
def RpcClient.Receives (b : Buffer) (text : Bytes) : Prop :=
  (responses.run b).events = [text ++ crlf] ∧ (responses.run b).thrown = none ∧
    (responses.run b).state.readable = []

/-- The client receives a framed text exactly when it is below the limit. -/
theorem text_received_iff {b : Buffer} (valid : b.Valid) {text : Bytes}
    (arrived : b.readable = frame text) :
    RpcClient.Receives b text ↔ text.length + 2 < RpcClient.kMaxMessageLen := by
  have handles := RpcClient.handlesFrames Exec.emit
  constructor
  · intro receives
    by_contra long
    have found : b.findCRLF = some (toDecimal (text.length + 2)).length := by
      rw [Buffer.findCRLF, arrived, frame_eq, searchCRLF_header]
    have line : b.readable.take ((toDecimal (text.length + 2)).length + 2) = header text := by
      rw [arrived, frame_eq, ← header_length, List.take_left]
    have events := receives.1
    rw [RpcClient.responses, handles.run_eq] at events
    simp only [RpcClient.handleMessage, RpcClient.handleMessagePass, found, line] at events
    by_cases fits : text.length + 2 < 2 ^ 31
    · rw [headerLength_header fits] at events
      simp only [if_pos (Nat.not_lt.mp long)] at events
      cases events
    · rw [headerLength_header_big (Nat.not_lt.mp fits)] at events
      cases events
  · intro small
    have front : b.readable = frame text ++ [] := by
      rw [List.append_nil]
      exact arrived
    have ran := handles.run_frame (by decide) ⟨text, small⟩ valid front
    rw [List.append_nil] at ran
    rw [RpcClient.Receives, RpcClient.responses, ran]
    exact ⟨rfl, rfl, Buffer.readable_retrieveAll _⟩

/-- **The client receives a response exactly when it is below the client's limit.** -/
theorem response_received_iff (sprintf : Double → Bytes) (response : Value) {b : Buffer}
    (valid : b.Valid) (arrived : b.readable = BaseServer.sendResponse sprintf response) :
    RpcClient.Receives b (Writer.write sprintf response) ↔
      (Writer.write sprintf response).length + 2 < RpcClient.kMaxMessageLen :=
  text_received_iff valid arrived

/-- The response to `s.add` when its handler answers `result`. -/
def addAnswer (result : Value) : Value := UserDoneCallback.resultResponse (.int32 7) result

theorem three_received :
    RpcClient.Receives (received (BaseServer.sendResponse Writer.noDoubles (addAnswer (.int32 3))))
      (Writer.write Writer.noDoubles (addAnswer (.int32 3))) :=
  (response_received_iff Writer.noDoubles (addAnswer (.int32 3)) (valid_received _)
    (readable_received _)).mpr (by decide +kernel)

/-- A result as long as the client's limit is not received. -/
theorem not_received_of_long {text : Bytes} (long : RpcClient.kMaxMessageLen ≤ text.length) :
    ¬ RpcClient.Receives
      (received (BaseServer.sendResponse Writer.noDoubles (addAnswer (.string text))))
      (Writer.write Writer.noDoubles (addAnswer (.string text))) := by
  intro receives
  have small := (text_received_iff (valid_received _) (readable_received _)).mp receives
  have inside : (ascii "result", Value.string text) ∈ [(ascii "jsonrpc", Value.string (ascii "2.0")),
      (ascii "id", .int32 7), (ascii "result", Value.string text)] :=
    List.mem_cons_of_mem _ (List.mem_cons_of_mem _ List.mem_cons_self)
  have written : text.length ≤ (Writer.write Writer.noDoubles (addAnswer (.string text))).length :=
    Writer.length_le_write Writer.noDoubles inside
  omega

/-- 64 KiB of text. -/
def longResult : Value := .string (List.replicate 65536 97)

/-- The client does not receive a response that the server sends to an accepted
call. -/
theorem long_response_refused :
    AcceptedRequest demoServer (.object addCall) ∧
      UserDoneCallback.call ⟨.object addCall, reply⟩ longResult =
        .ok [.sendResponse (addAnswer longResult)] ∧
      ¬ RpcClient.Receives (received (BaseServer.sendResponse Writer.noDoubles (addAnswer longResult)))
        (Writer.write Writer.noDoubles (addAnswer longResult)) := by
  refine ⟨⟨addCall, addProcedure, rfl, addCall_accepted⟩, ?_, ?_⟩
  · have answered : UserDoneCallback.response ⟨.object addCall, reply⟩ longResult =
        .ok (addAnswer longResult) :=
      UserDoneCallback.response_eq rfl (by decide) longResult
    rw [UserDoneCallback.call, answered]
    rfl
  · apply not_received_of_long
    rw [List.length_replicate]
    decide

/-! ## Refused headers -/

/-- The faults a loop raises over a header line. -/
def isRejection : Thrown → Prop
  | .cstr msg | .exception msg => msg = "invalid message length" ∨ msg = "message is too long"
  | .assertion => False

def Rejects (loop : Loop Buffer Bytes Thrown) (b : Buffer) : Prop :=
  ∃ t, (loop.run b).thrown = some t ∧ isRejection t

/-- Every one of these reads ends in a rejection that consumes nothing. -/
def Refuses (loop : Loop Buffer Bytes Thrown) : Buffer → List Bytes → Prop
  | _, [] => True
  | b, got :: reads =>
      Rejects loop (b.readFd got) ∧
        (loop.run (b.readFd got)).state.readable = b.readable ++ got ∧
        Refuses loop (loop.run (b.readFd got)).state reads

/-- Whatever is read from now on is refused. -/
def Wedged (loop : Loop Buffer Bytes Thrown) (b : Buffer) : Prop :=
  ∀ reads : List Bytes, [] ∉ reads → Refuses loop b reads

/-- A loop gets over what it rejects in this state: the header line is consumed, a
frame that the next read completes behind it is dispatched, and the connection is
not wedged. -/
structure Recovers (limit : Nat) (loop : Loop Buffer Bytes Thrown) (b : Buffer) : Prop where
  consumed : Rejects loop b → ∀ i, b.findCRLF = some i →
    (loop.run b).state.readable = b.readable.drop (i + 2)
  resumes : Rejects loop b → ∀ i, b.findCRLF = some i → ∀ (text : Text limit) (got : Bytes),
    b.readable.drop (i + 2) ++ got = frame text.1 →
    (loop.run ((loop.run b).state.readFd got)).events = [text.1 ++ crlf]
  free : ¬ Wedged loop b

/-- The input starts with a line that the server refuses. -/
def BaseServer.RefusesHeader (input : Bytes) : Prop :=
  ∃ i, Buffer.searchCRLF input = some i ∧ 0 < i ∧
    (headerLength (input.take (i + 2)) = .ok none ∨
      ∃ n, headerLength (input.take (i + 2)) = .ok (some n) ∧ kMaxMessageLen ≤ n)

/-- The input starts with a line that declares more than the client takes. -/
def RpcClient.RefusesLength (input : Bytes) : Prop :=
  ∃ i n, Buffer.searchCRLF input = some i ∧ headerLength (input.take (i + 2)) = .ok (some n) ∧
    kMaxMessageLen ≤ n

section Refused

variable {b : Buffer}

/-- The line a loop looks at stays the same when more bytes come in. -/
theorem line_append {s : Bytes} {i : Nat} (found : Buffer.searchCRLF s = some i) (t : Bytes) :
    (s ++ t).take (i + 2) = s.take (i + 2) :=
  List.take_append_of_le_length (Buffer.searchCRLF_some found).1

/-- A byte other than LF completes no line. -/
theorem line_concat {s : Bytes} {i : Nat} {c : UInt8} (ne : c ≠ 10)
    (found : Buffer.searchCRLF (s ++ [c]) = some i) : Buffer.searchCRLF s = some i := by
  cases before : Buffer.searchCRLF s with
  | none =>
      rw [Buffer.searchCRLF_concat before ne] at found
      cases found
  | some j =>
      rw [Buffer.searchCRLF_append before] at found
      exact found

/-- The input starts with a line with this property, which may speak of its end. -/
def FirstLine (Q : Nat → Bytes → Prop) (s : Bytes) : Prop :=
  ∃ i, Buffer.searchCRLF s = some i ∧ Q i (s.take (i + 2))

theorem FirstLine.append {Q : Nat → Bytes → Prop} {s : Bytes} (first : FirstLine Q s)
    (t : Bytes) : FirstLine Q (s ++ t) := by
  obtain ⟨i, found, line⟩ := first
  refine ⟨i, Buffer.searchCRLF_append found t, ?_⟩
  rw [line_append found]
  exact line

theorem FirstLine.of_concat {Q : Nat → Bytes → Prop} {s : Bytes} {c : UInt8} (ne : c ≠ 10)
    (first : FirstLine Q (s ++ [c])) : FirstLine Q s := by
  obtain ⟨i, found, line⟩ := first
  have here := line_concat ne found
  rw [line_append here] at line
  exact ⟨i, here, line⟩

theorem refusesHeader_iff {s : Bytes} : BaseServer.RefusesHeader s ↔
    FirstLine (fun i line => 0 < i ∧ (headerLength line = .ok none ∨
      ∃ n, headerLength line = .ok (some n) ∧ BaseServer.kMaxMessageLen ≤ n)) s := Iff.rfl

theorem refusesLength_iff {s : Bytes} : RpcClient.RefusesLength s ↔
    FirstLine (fun _ line => ∃ n, headerLength line = .ok (some n) ∧
      RpcClient.kMaxMessageLen ≤ n) s := by
  constructor
  · rintro ⟨i, n, found, line, long⟩
    exact ⟨i, found, n, line, long⟩
  · rintro ⟨i, found, n, line, long⟩
    exact ⟨i, n, found, line, long⟩

/-- **A line that is refused and kept is refused for ever.** -/
theorem wedged_of {loop : Loop Buffer Bytes Thrown} {P : Bytes → Prop}
    (grows : ∀ s t, P s → P (s ++ t))
    (kept : ∀ b : Buffer, P b.readable → Rejects loop b ∧ (loop.run b).state = b)
    (valid : b.Valid) (front : P b.readable) : Wedged loop b := by
  intro reads _
  induction reads generalizing b with
  | nil => trivial
  | cons got reads ih =>
      have held : (b.readFd got).readable = b.readable ++ got := Buffer.readable_readFd valid got
      have front' : P (b.readFd got).readable := by
        rw [held]
        exact grows _ _ front
      obtain ⟨rejects, same⟩ := kept _ front'
      refine ⟨rejects, by rw [same, held], ?_⟩
      rw [same]
      exact ih (Buffer.valid_readFd valid got) front' (by simp_all)

/-! ### The server -/

/-- The server keeps a line that it refuses. -/
theorem server_refuses (refuses : BaseServer.RefusesHeader b.readable) :
    Rejects BaseServer.requests b ∧ (BaseServer.requests.run b).state = b := by
  obtain ⟨i, found, positive, line⟩ := refuses
  rw [Rejects, BaseServer.requests, (BaseServer.handlesFrames Exec.emit).run_eq]
  simp only [BaseServer.handleMessage, BaseServer.handleMessagePass, Buffer.findCRLF, found,
    if_neg (Nat.ne_of_gt positive)]
  rcases line with none | ⟨n, declared, long⟩
  · rw [none]
    exact ⟨⟨_, rfl, .inl rfl⟩, rfl⟩
  · rw [declared]
    simp only [if_pos long]
    exact ⟨⟨_, rfl, .inr rfl⟩, rfl⟩

theorem server_rejects (rejects : Rejects BaseServer.requests b) :
    BaseServer.RefusesHeader b.readable := by
  obtain ⟨t, thrown, rejection⟩ := rejects
  rw [BaseServer.requests, (BaseServer.handlesFrames Exec.emit).run_eq] at thrown
  simp only [BaseServer.handleMessage, BaseServer.handleMessagePass] at thrown
  cases found : b.findCRLF with
  | none =>
      rw [found] at thrown
      cases thrown
  | some i =>
      simp only [found] at thrown
      split at thrown
      · cases thrown
      · rename_i positive
        refine ⟨i, found, Nat.pos_of_ne_zero positive, ?_⟩
        cases declared : headerLength (b.readable.take (i + 2)) with
        | error t' =>
            obtain ⟨-, rfl⟩ := headerLength_error_iff.mp declared
            rw [declared] at thrown
            obtain rfl := Option.some.inj thrown
            cases rejection
        | ok length =>
            cases length with
            | none => exact .inl rfl
            | some n =>
                refine .inr ⟨n, rfl, ?_⟩
                by_contra small
                simp only [declared, if_neg small, dispatchMessage_emit] at thrown
                cases thrown

/-! ### The client -/

/-- The client keeps a line that declares too much. -/
theorem client_refuses (refuses : RpcClient.RefusesLength b.readable) :
    Rejects RpcClient.responses b ∧ (RpcClient.responses.run b).state = b := by
  obtain ⟨i, n, found, declared, long⟩ := refuses
  rw [Rejects, RpcClient.responses, (RpcClient.handlesFrames Exec.emit).run_eq]
  simp only [RpcClient.handleMessage, RpcClient.handleMessagePass, Buffer.findCRLF, found, declared,
    if_pos long]
  exact ⟨⟨_, rfl, .inr rfl⟩, rfl⟩

/-- Any other line that it rejects it drops. -/
theorem client_rejects (rejects : Rejects RpcClient.responses b)
    (accepts : ¬ RpcClient.RefusesLength b.readable) : ∃ i, b.findCRLF = some i ∧
      RpcClient.responses.run b =
        ⟨b.retrieve (i + 2), [], some (.exception "invalid message length")⟩ := by
  obtain ⟨t, thrown, rejection⟩ := rejects
  rw [RpcClient.responses, (RpcClient.handlesFrames Exec.emit).run_eq] at thrown ⊢
  simp only [RpcClient.handleMessage, RpcClient.handleMessagePass] at thrown ⊢
  cases found : b.findCRLF with
  | none =>
      rw [found] at thrown
      cases thrown
  | some i =>
      refine ⟨i, rfl, ?_⟩
      cases declared : headerLength (b.readable.take (i + 2)) with
      | error t' =>
          obtain ⟨-, rfl⟩ := headerLength_error_iff.mp declared
          simp only [found, declared] at thrown
          obtain rfl := Option.some.inj thrown
          cases rejection
      | ok length =>
          cases length with
          | none =>
              simp only [declared]
              rfl
          | some n =>
              have small : ¬ RpcClient.kMaxMessageLen ≤ n := fun long =>
                accepts ⟨i, n, found, declared, long⟩
              simp only [found, declared, if_neg small, dispatchMessage_emit] at thrown
              cases thrown

end Refused

/-! ### Recovery -/

section Recovery

variable {b : Buffer}

theorem server_recovers (valid : b.Valid) (accepts : ¬ BaseServer.RefusesHeader b.readable) :
    Recovers BaseServer.kMaxMessageLen BaseServer.requests b where
  consumed rejects := absurd (server_rejects rejects) accepts
  resumes rejects := absurd (server_rejects rejects) accepts
  free wedged := by
    have next := server_rejects (wedged [[120]] (by decide)).1
    rw [Buffer.readable_readFd valid] at next
    exact accepts (refusesHeader_iff.mpr ((refusesHeader_iff.mp next).of_concat (by decide)))

theorem client_recovers (valid : b.Valid) (accepts : ¬ RpcClient.RefusesLength b.readable) :
    Recovers RpcClient.kMaxMessageLen RpcClient.responses b where
  consumed rejects i found := by
    obtain ⟨j, found', ran⟩ := client_rejects rejects accepts
    obtain rfl : j = i := Option.some.inj (found'.symm.trans found)
    rw [ran]
    exact Buffer.readable_retrieve valid _
  resumes rejects i found text got behind := by
    obtain ⟨j, found', ran⟩ := client_rejects rejects accepts
    obtain rfl : j = i := Option.some.inj (found'.symm.trans found)
    have dropped := Buffer.valid_retrieve valid (j + 2)
    have front : ((b.retrieve (j + 2)).readFd got).readable = frame text.1 ++ [] := by
      rw [Buffer.readable_readFd dropped, Buffer.readable_retrieve valid, behind, List.append_nil]
    have taken := (RpcClient.handlesFrames Exec.emit).run_frame (by decide) text
      (Buffer.valid_readFd dropped got) front
    rw [List.append_nil] at taken
    rw [ran, RpcClient.responses, taken]
    rfl
  free wedged := by
    obtain ⟨rejects, kept, -⟩ := wedged [[120]] (by decide)
    have held : (b.readFd [120]).readable = b.readable ++ [120] := Buffer.readable_readFd valid _
    have accepts' : ¬ RpcClient.RefusesLength (b.readFd [120]).readable := fun next =>
      accepts (refusesLength_iff.mpr ((refusesLength_iff.mp (held ▸ next)).of_concat (by decide)))
    -- the line is dropped, and so the buffer is not what it was
    obtain ⟨i, found, ran⟩ := client_rejects rejects accepts'
    have inside := (Buffer.searchCRLF_some found).1
    rw [ran, ← held] at kept
    have shorter := congrArg List.length kept
    rw [Buffer.readable_retrieve (Buffer.valid_readFd valid _), List.length_drop] at shorter
    omega

theorem server_wedged (valid : b.Valid) (refuses : BaseServer.RefusesHeader b.readable) :
    Wedged BaseServer.requests b :=
  wedged_of (fun _ t front => front.append t)
    (fun _ front => server_refuses (refusesHeader_iff.mpr front)) valid (refusesHeader_iff.mp refuses)

theorem client_wedged (valid : b.Valid) (refuses : RpcClient.RefusesLength b.readable) :
    Wedged RpcClient.responses b :=
  wedged_of (fun _ t front => front.append t)
    (fun _ front => client_refuses (refusesLength_iff.mpr front)) valid (refusesLength_iff.mp refuses)

/-- **Each loop recovers from a state exactly when it does not keep the line that it
refuses there.** -/
theorem rejected_header_iff (valid : b.Valid) :
    (Recovers BaseServer.kMaxMessageLen BaseServer.requests b ↔
        ¬ BaseServer.RefusesHeader b.readable) ∧
      (Recovers RpcClient.kMaxMessageLen RpcClient.responses b ↔
        ¬ RpcClient.RefusesLength b.readable) := by
  constructor
  · exact ⟨fun recovers refuses => recovers.free (server_wedged valid refuses),
      server_recovers valid⟩
  · exact ⟨fun recovers refuses => recovers.free (client_wedged valid refuses),
      client_recovers valid⟩

end Recovery

/-- The client gets over a line that is no length. -/
theorem client_recovers_from_x :
    Rejects RpcClient.responses (received (ascii "x\r\n")) ∧
      Recovers RpcClient.kMaxMessageLen RpcClient.responses (received (ascii "x\r\n")) := by
  have line : Buffer.searchCRLF (received (ascii "x\r\n")).readable = some 1 := by decide +kernel
  refine ⟨⟨.exception "invalid message length", by decide +kernel, .inl rfl⟩,
    (rejected_header_iff (valid_received _)).2.mpr ?_⟩
  rintro ⟨i, n, found, declared, -⟩
  obtain rfl : 1 = i := Option.some.inj (line.symm.trans found)
  have nothing : headerLength ((received (ascii "x\r\n")).readable.take 3) = .ok none := by
    decide +kernel
  rw [nothing] at declared
  cases declared

theorem x_refused : BaseServer.RefusesHeader (received (ascii "x\r\n")).readable :=
  ⟨1, by decide +kernel, by decide, .inl (by decide +kernel)⟩

theorem overLimit_refused : RpcClient.RefusesLength (received (ascii "99999\r\n")).readable :=
  ⟨5, 99999, by decide +kernel, by decide +kernel, by decide⟩

/-- The server does not, nor the client over a length above its limit. -/
theorem refused_for_ever :
    (Rejects BaseServer.requests (received (ascii "x\r\n")) ∧
      Wedged BaseServer.requests (received (ascii "x\r\n")) ∧
      ¬ Recovers BaseServer.kMaxMessageLen BaseServer.requests (received (ascii "x\r\n"))) ∧
    (Rejects RpcClient.responses (received (ascii "99999\r\n")) ∧
      Wedged RpcClient.responses (received (ascii "99999\r\n")) ∧
      ¬ Recovers RpcClient.kMaxMessageLen RpcClient.responses (received (ascii "99999\r\n"))) := by
  have server := server_wedged (valid_received _) x_refused
  have client := client_wedged (valid_received _) overLimit_refused
  exact ⟨⟨(server_refuses x_refused).1, server, fun recovers => recovers.free server⟩,
    ⟨(client_refuses overLimit_refused).1, client, fun recovers => recovers.free client⟩⟩

end LaliRpc.Zrpc
