import Npb.Foundations.StructFormat
import Npb.Python.Values

/-! # Control frames

A frame is a big-endian length and that many bytes of JSON. The receiving side is described by what
it does after the bytes it has read so far (`received`): read on, give up, or return a message; it
returns only once it has read a whole frame and nothing beyond it (`received_complete`). -/

namespace Npb.Mstore
set_option autoImplicit false

/-! ## Exceptions on a connection -/

inductive WireError where
  | eof
  /-- `OSError` and its subclasses, timeouts and connection errors among them. -/
  | os (message : String)
  | protocol (message : String)
  | other (e : PyError)
  deriving DecidableEq

/-- `except (EOFError, OSError, ConnectionError, ProtocolError)`. -/
def WireError.caught : WireError → Bool
  | other _ => false
  | _ => true

/-- How `json.loads(payload.decode("utf-8"))` can fail. -/
inductive LoadError where
  /-- `UnicodeDecodeError` or `JSONDecodeError`. -/
  | invalid
  | other (e : PyError)

abbrev Message := List (String × Json)

/-- The JSON library with its UTF-8 text. -/
structure JsonText where
  dumps : Message → Except PyError (List UInt8)
  loads : List UInt8 → Except LoadError Json

/-! ## Encoding and decoding -/

def maxFrame : ℕ := 4 * 1024 * 1024

/-- `struct.Struct("!I").size`. -/
def frameHeaderSize : ℕ := 4

def frameHeader (size : ℕ) : List UInt8 := (Struct.leBytes frameHeaderSize size).reverse

/-- The length in the first bytes of a frame. -/
def frameSize (frame : List UInt8) : ℕ := Struct.leNat (frame.take frameHeaderSize).reverse

/-- A payload as it is sent. -/
def framed (payload : List UInt8) : List UInt8 := frameHeader payload.length ++ payload

section Frames
variable (text : JsonText)

def encodeFrame (message : Message) : Except WireError (List UInt8) :=
  match text.dumps message with
  | .error e => .error (.other e)
  | .ok payload =>
    if maxFrame < payload.length then
      .error (.protocol "control frame exceeds 4194304 bytes")
    else .ok (framed payload)

def decodeFrame (frame : List UInt8) : Except WireError Message :=
  if frame.length < frameHeaderSize then
    .error (.protocol "control frame is missing its length header")
  else if maxFrame < frameSize frame then
    .error (.protocol "control frame exceeds 4194304 bytes")
  else if frame.length ≠ frameHeaderSize + frameSize frame then
    .error (.protocol "control frame length does not match its header")
  else
    match text.loads (frame.drop frameHeaderSize) with
    | .error .invalid => .error (.protocol "invalid JSON control frame")
    | .error (.other e) => .error (.other e)
    | .ok (.dict message) => .ok message
    | .ok _ => .error (.protocol "control frame must be a JSON object")

/-! ## Receiving -/

/-- How the bytes of a connection arrive: from a socket, with or without `recvmsg`, or a message at
a time from a pipe. -/
inductive Transport where
  | socket (recvmsg : Bool)
  | pipe
  deriving DecidableEq

inductive Received where
  /-- Read again, at most `limit` bytes. -/
  | more (limit : ℕ)
  | failed (e : WireError)
  | done (message : Message)

def decoded (frame : List UInt8) : Received :=
  match decodeFrame text frame with
  | .ok message => .done message
  | .error e => .failed e

/-- `recv_frame_with_optional_fd`, `recv_frame` and `recv_pipe_frame` after the bytes in `buf`. A
socket is first read for any number of bytes, or for the header where there is no `recvmsg`, and
then for what is missing of the header and of the frame. -/
def received (transport : Transport) (buf : List UInt8) : Received :=
  match transport with
  | .pipe => if buf = [] then .more (maxFrame + frameHeaderSize) else decoded text buf
  | .socket recvmsg =>
    if buf.length < frameHeaderSize then
      .more (if recvmsg = true ∧ buf = [] then 64 * 1024 else frameHeaderSize - buf.length)
    else if maxFrame < frameSize buf then
      .failed (.protocol "control frame exceeds 4194304 bytes")
    else if buf.length < frameHeaderSize + frameSize buf then
      .more (frameHeaderSize + frameSize buf - buf.length)
    else if buf.length ≠ frameHeaderSize + frameSize buf then
      .failed (.protocol "received bytes beyond the end of a control frame")
    else decoded text buf

end Frames

/-! ## Laws -/

section Laws
variable {text : JsonText} {payload buf frame : List UInt8} {transport : Transport}

theorem frameHeader_length (size : ℕ) : (frameHeader size).length = frameHeaderSize := by
  simp [frameHeader]

theorem framed_length (payload : List UInt8) :
    (framed payload).length = frameHeaderSize + payload.length := by
  rw [framed, List.length_append, frameHeader_length]

theorem frameSize_framed (h : payload.length < 2 ^ 32) (rest : List UInt8) :
    frameSize (framed payload ++ rest) = payload.length := by
  unfold frameSize framed
  rw [List.append_assoc, List.take_left' (frameHeader_length _), frameHeader, List.reverse_reverse,
    Struct.leNat_leBytes]
  exact h

theorem frameSize_prefixed (h : payload.length < 2 ^ 32) (hbuf : buf <+: framed payload)
    (hlength : frameHeaderSize ≤ buf.length) : frameSize buf = payload.length := by
  obtain ⟨rest, hrest⟩ := hbuf
  have hsame : frameSize (framed payload) = frameSize buf := by
    unfold frameSize
    rw [← hrest, List.take_append_of_le_length hlength]
  have hframed := frameSize_framed h []
  rw [List.append_nil] at hframed
  rw [← hsame, hframed]

theorem encodeFrame_ok {message : Message} (h : encodeFrame text message = .ok frame) :
    ∃ payload, frame = framed payload ∧ payload.length < 2 ^ 32 := by
  unfold encodeFrame at h
  split at h
  · cases h
  · next payload hdumps =>
    split at h
    · cases h
    · next hle =>
      cases h
      have hmax : maxFrame < 2 ^ 32 := by decide
      exact ⟨payload, rfl, by omega⟩

theorem received_nil (text : JsonText) (transport : Transport) :
    ∃ limit, received text transport [] = .more limit := by
  cases transport with
  | pipe => exact ⟨_, rfl⟩
  | socket recvmsg => exact ⟨_, rfl⟩

/-- Decoding ends with a whole frame, or an exception that is caught. -/
theorem decoded_complete (h : ∀ e, decoded text buf = .failed e → e.caught = false) :
    buf.length = frameHeaderSize + frameSize buf := by
  by_contra hne
  unfold decoded decodeFrame at h
  by_cases hshort : buf.length < frameHeaderSize
  · rw [if_pos hshort] at h
    exact absurd (h _ rfl) (by simp [WireError.caught])
  rw [if_neg hshort] at h
  by_cases hbig : maxFrame < frameSize buf
  · rw [if_pos hbig] at h
    exact absurd (h _ rfl) (by simp [WireError.caught])
  rw [if_neg hbig, if_pos hne] at h
  exact absurd (h _ rfl) (by simp [WireError.caught])

/-- Receiving ends with a whole frame and no byte more, or an exception that is caught. -/
theorem received_complete (hend : ∀ limit, received text transport buf ≠ .more limit)
    (h : ∀ e, received text transport buf = .failed e → e.caught = false) :
    buf.length = frameHeaderSize + frameSize buf ∧
      received text transport buf = decoded text buf := by
  unfold received at h hend ⊢
  cases transport with
  | pipe =>
    dsimp only at h hend ⊢
    by_cases hnil : buf = []
    · rw [if_pos hnil] at hend
      exact absurd rfl (hend _)
    · rw [if_neg hnil] at h ⊢
      exact ⟨decoded_complete h, rfl⟩
  | socket recvmsg =>
    dsimp only at h hend ⊢
    by_cases hshort : buf.length < frameHeaderSize
    · rw [if_pos hshort] at hend
      exact absurd rfl (hend _)
    rw [if_neg hshort] at h hend ⊢
    by_cases hbig : maxFrame < frameSize buf
    · rw [if_pos hbig] at h
      exact absurd (h _ rfl) (by simp [WireError.caught])
    rw [if_neg hbig] at h hend ⊢
    by_cases hmissing : buf.length < frameHeaderSize + frameSize buf
    · rw [if_pos hmissing] at hend
      exact absurd rfl (hend _)
    rw [if_neg hmissing] at h ⊢
    by_cases hbeyond : buf.length = frameHeaderSize + frameSize buf
    · rw [if_neg (not_not.mpr hbeyond)]
      exact ⟨hbeyond, rfl⟩
    · rw [if_pos hbeyond] at h
      exact absurd (h _ rfl) (by simp [WireError.caught])

end Laws
end Npb.Mstore
