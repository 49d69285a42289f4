import Npb.Mstore.Framing
import Npb.Mstore.Server

/-! # Workers of the server

One round of the loop of `_serve_connection`: a request is received, handled and answered, whatever
is raised on the way. -/

namespace Npb.Mstore
set_option autoImplicit false
open Effects

/-! ## Payloads -/

/-- `ERROR_CODES`. -/
def ErrorClass.code : ErrorClass → String
  | .authenticationError => "authentication_error"
  | .permissionDenied => "permission_denied"
  | .objectNotFound => "object_not_found"
  | .tokenExpired => "token_expired"
  | .tokenRevoked => "token_revoked"
  | .invalidRequest => "invalid_request"
  | .protocolError => "protocol_error"

/-- `str(exc)`. -/
def Failure.text (repr : Json → String) : Failure → String
  | .mstore _ message => message
  | .python e =>
    match e with
    | .typeError message | .valueError message | .overflowError message
    | .zeroDivisionError message | .structError message | .formatError message
    | .schemaMismatchError message | .bufferTooSmallError message | .blobStoreError message
    | .blobStoreRequiredError message | .other _ message => message
    | .keyError key => repr (.leaf (.str key))
    | .memoryError => ""

/-- An exception of the connection, as `except Exception` has it. -/
def WireError.raised : WireError → Failure
  | .eof => .python (.other "EOFError" "connection closed while receiving a control frame")
  | .os message => .python (.other "OSError" message)
  | .protocol message => .mstore .protocolError message
  | .other e => .python e

/-- What a worker has around it: the environment of the registry, the JSON library, and its
connection. `traceback` is the text of `traceback.format_exc()`, and `writes` whether the n-th write
to the connection raises, before any byte of it was written. -/
structure Service where
  env : Environment
  text : JsonText
  endpoint : String
  debug : Bool
  traceback : Failure → String
  transport : Transport
  writes : ℕ → Option String

/-- A frame that was written. -/
structure Sent where
  message : Message
  frame : List UInt8
  fd : Option ℕ

structure Worker where
  inbox : Inbox
  server : State
  sent : List Sent
  attempts : ℕ

abbrev Serving (α : Type) := EStateM WireError Worker α

def okPayload (result : Message) : Message :=
  [("ok", .leaf (.bool true)), ("result", .dict result)]

section Serving
variable (service : Service)

/-- `_error_payload(exc)`. -/
def errorPayload (exc : Failure) : Message :=
  let message : Json := .leaf (.str (exc.text service.env.repr))
  match exc with
  | .mstore cls _ =>
    [("ok", .leaf (.bool false)),
      ("error", .dict [("type", .leaf (.str cls.code)), ("message", message)])]
  | .python _ =>
    let traceback : Message :=
      if service.debug then [("traceback", .leaf (.str (service.traceback exc)))] else []
    [("ok", .leaf (.bool false)),
      ("error", .dict ([("type", .leaf (.str "internal_error")), ("message", message)] ++
        traceback))]

/-! ## Sending -/

/-- What `conn.send(message, fd)` writes, unless it raises before. -/
def wireFrame (message : Message) (fd : Option ℕ) : Except WireError (List UInt8) :=
  match service.transport with
  | .pipe =>
    if fd ≠ none then
      .error (.protocol "file descriptors cannot be passed over a Windows named pipe")
    else encodeFrame service.text message
  | .socket hasSendmsg => do
    let frame ← encodeFrame service.text message
    if fd ≠ none ∧ hasSendmsg = false then
      .error (.protocol "file-descriptor passing is unavailable on this platform")
    else .ok frame

def write (answer : Sent) : Serving Unit := fun w =>
  match service.writes w.attempts with
  | none => .ok () { w with sent := w.sent ++ [answer], attempts := w.attempts + 1 }
  | some message => .error (.os message) { w with attempts := w.attempts + 1 }

def send (message : Message) (fd : Option ℕ) : Serving Unit := do
  let frame ← fromExcept (wireFrame service message fd)
  write service ⟨message, frame, fd⟩

/-! ## Receiving -/

/-- `conn.recv()`. -/
def receiveFrame : Receive (Message × Option ℕ) := connRecv service.text service.transport

def onInbox {α : Type} (x : Receive α) : Serving α := fun w =>
  match x w.inbox with
  | .ok a inbox => .ok a { w with inbox := inbox }
  | .error e inbox => .error e { w with inbox := inbox }

/-! ## Serving -/

/-- A call of the handler, with what it returned or raised. -/
def onServer {α : Type} (x : Call α) : Serving (Except Failure α) := fun w =>
  .ok (outcomeOf (x w.server)) { w with server := finalState (x w.server) }

/-- `try: x`. -/
def attempt {α : Type} (x : Serving α) : Serving (Except WireError α) := fun w =>
  match x w with
  | .ok a w' => .ok (.ok a) w'
  | .error e w' => .ok (.error e) w'

/-- How a round ends: the loop goes on, or `break`. -/
inductive Turn where
  | again
  | leave
  deriving DecidableEq

/-- `try: conn.send(self._error_payload(exc)) except (OSError, EOFError, ConnectionError): break`. -/
def answerError (exc : Failure) : Serving Turn := do
  match ← attempt (send service (errorPayload service exc) none) with
  | .ok () => return .again
  | .error .eof | .error (.os _) => return .leave
  | .error e => throw e

/-- `try: conn.send(self._error_payload(exc)) except Exception: pass`, and then `break`. -/
def report (exc : Failure) : Serving Turn := do
  let _ ← attempt (send service (errorPayload service exc) none)
  return .leave

def answer (result : Message) (fd : Option ℕ) : Serving Turn := do
  match ← attempt (send service (okPayload result) fd) with
  | .ok () => return .again
  | .error e => answerError service e.raised

/-- The handler's descriptor is closed however the answer went. -/
def serveRequest (request : Message) : Serving Turn := do
  match ← onServer (handle service.env service.endpoint request) with
  | .error exc => answerError service exc
  | .ok (result, fd) =>
    let turn ← attempt (answer service result fd)
    onInbox (closeDescriptors fd.toList)
    fromExcept turn

/-- One round of the loop; what it raises ends the worker. -/
def serveOnce : Serving Turn := do
  match ← attempt (onInbox (receiveFrame service)) with
  | .error .eof | .error (.os _) => return .leave
  | .error (.protocol message) => report service (.mstore .protocolError message)
  | .error e => throw e
  | .ok (_, some requestFd) =>
    onInbox (closeDescriptors [requestFd])
    report service (.mstore .protocolError "unexpected client file descriptor")
  | .ok (request, none) => serveRequest service request

end Serving

/-! ## Running a round -/

section Runs
variable {service : Service} {w w' : Worker} {exc : Failure} {message request result : Message}
  {fd : Option ℕ} {frame : List UInt8}

theorem attempt_ok {α : Type} {x : Serving α} {a : α} (h : x w = .ok a w') :
    attempt x w = .ok (.ok a) w' := by
  rw [attempt, h]

theorem attempt_error {α : Type} {x : Serving α} {e : WireError} (h : x w = .error e w') :
    attempt x w = .ok (.error e) w' := by
  rw [attempt, h]

theorem wireFrame_none (service : Service) (message : Message) :
    wireFrame service message none = encodeFrame service.text message := by
  unfold wireFrame
  cases service.transport with
  | pipe => rfl
  | socket hasSendmsg =>
    cases encodeFrame service.text message with
    | error e => rfl
    | ok frame => simp [bind, Except.bind]

theorem send_unwritten {e : WireError} (h : wireFrame service message fd = .error e) :
    send service message fd w = .error e w := by
  rw [send, h]
  rfl

theorem send_written (h : wireFrame service message fd = .ok frame)
    (hwrites : service.writes w.attempts = none) : send service message fd w =
      .ok () { w with sent := w.sent ++ [⟨message, frame, fd⟩], attempts := w.attempts + 1 } := by
  rw [send, h, fromExcept_ok_bind, write, hwrites]

theorem send_broken {text : String} (h : wireFrame service message fd = .ok frame)
    (hwrites : service.writes w.attempts = some text) : send service message fd w =
      .error (.os text) { w with attempts := w.attempts + 1 } := by
  rw [send, h, fromExcept_ok_bind, write, hwrites]

/-- What encoding raises is never taken for a broken connection. -/
theorem encodeFrame_error {text : JsonText} {e : WireError}
    (h : encodeFrame text message = .error e) : ¬ e.IsBroken := by
  unfold encodeFrame at h
  rintro (rfl | ⟨detail, rfl⟩)
  · split at h
    · cases h
    · split at h <;> cases h
  · split at h
    · cases h
    · split at h <;> cases h

/-! ### Error answers -/

/-- The error payload of the exception fits into a frame. -/
def Sendable (service : Service) (exc : Failure) : Prop :=
  ∃ frame, encodeFrame service.text (errorPayload service exc) = .ok frame

theorem answerError_written
    (h : encodeFrame service.text (errorPayload service exc) = .ok frame)
    (hwrites : service.writes w.attempts = none) : answerError service exc w = .ok .again
      { w with
        sent := w.sent ++ [⟨errorPayload service exc, frame, none⟩]
        attempts := w.attempts + 1 } := by
  rw [answerError, bind_ok (attempt_ok (send_written ((wireFrame_none _ _).trans h) hwrites))]
  rfl

theorem answerError_broken {text : String}
    (h : encodeFrame service.text (errorPayload service exc) = .ok frame)
    (hwrites : service.writes w.attempts = some text) :
    answerError service exc w = .ok .leave { w with attempts := w.attempts + 1 } := by
  rw [answerError, bind_ok (attempt_error (send_broken ((wireFrame_none _ _).trans h) hwrites))]
  rfl

theorem answerError_unsendable (h : ¬ Sendable service exc) :
    ∃ e, answerError service exc w = .error e w := by
  cases hframe : encodeFrame service.text (errorPayload service exc) with
  | ok frame => exact absurd ⟨frame, hframe⟩ h
  | error e =>
    refine ⟨e, ?_⟩
    have hbroken := encodeFrame_error hframe
    rw [answerError, bind_ok (attempt_error (send_unwritten ((wireFrame_none _ _).trans hframe)))]
    cases e with
    | eof => exact absurd (.inl rfl) hbroken
    | os text => exact absurd (.inr ⟨text, rfl⟩) hbroken
    | protocol text => rfl
    | other e => rfl

/-- An error answer touches neither the registry nor the inbox, and sends error payloads only. -/
theorem answerError_state (service : Service) (exc : Failure) (w : Worker) :
    ∃ answers attempts, finalState (answerError service exc w) =
        { w with sent := w.sent ++ answers, attempts := attempts } ∧
      ∀ answer ∈ answers, answer.message = errorPayload service exc := by
  by_cases h : Sendable service exc
  · obtain ⟨frame, hframe⟩ := h
    cases hwrites : service.writes w.attempts with
    | none =>
      rw [answerError_written hframe hwrites]
      refine ⟨_, _, rfl, ?_⟩
      intro answer hanswer
      rw [List.mem_singleton.mp hanswer]
    | some text =>
      rw [answerError_broken hframe hwrites]
      exact ⟨[], w.attempts + 1, by rw [List.append_nil]; rfl, nofun⟩
  · obtain ⟨e, hrun⟩ := answerError_unsendable (w := w) h
    rw [hrun]
    exact ⟨[], w.attempts, by rw [List.append_nil]; rfl, nofun⟩

theorem okPayload_ne (result : Message) : okPayload result ≠ errorPayload service exc := by
  cases exc with
  | mstore cls text => exact nofun
  | python e => exact nofun

/-! ### Requests -/

theorem onServer_run {α : Type} (x : Call α) (w : Worker) : onServer x w =
    .ok (outcomeOf (x w.server)) { w with server := finalState (x w.server) } := rfl

theorem serveRequest_failed {s : State}
    (h : handle service.env service.endpoint request w.server = .error exc s) :
    serveRequest service request w = answerError service exc { w with server := s } := by
  rw [serveRequest, bind_ok (onServer_run _ w), h]
  rfl

def Worker.close (w : Worker) (fd : Option ℕ) : Worker :=
  { w with inbox := { w.inbox with closed := w.inbox.closed ++ fd.toList } }

theorem serveRequest_handled {s : State}
    (h : handle service.env service.endpoint request w.server = .ok (result, fd) s) :
    serveRequest service request w = match answer service result fd { w with server := s } with
      | .ok turn w' => .ok turn (w'.close fd)
      | .error e w' => .error e (w'.close fd) := by
  rw [serveRequest, bind_ok (onServer_run _ w), h]
  dsimp only [outcomeOf, finalState]
  cases hanswer : answer service result fd { w with server := s } with
  | ok turn w' =>
    rw [bind_ok (attempt_ok hanswer)]
    rfl
  | error e w' =>
    rw [bind_ok (attempt_error hanswer)]
    rfl

theorem serveRequest_final {s : State}
    (h : handle service.env service.endpoint request w.server = .ok (result, fd) s) :
    finalState (serveRequest service request w) =
      (finalState (answer service result fd { w with server := s })).close fd := by
  rw [serveRequest_handled h]
  cases answer service result fd { w with server := s } <;> rfl

theorem answer_written (h : wireFrame service (okPayload result) fd = .ok frame)
    (hwrites : service.writes w.attempts = none) : answer service result fd w = .ok .again
      { w with
        sent := w.sent ++ [⟨okPayload result, frame, fd⟩]
        attempts := w.attempts + 1 } := by
  rw [answer, bind_ok (attempt_ok (send_written h hwrites))]
  rfl

theorem answer_unwritten {e : WireError}
    (h : wireFrame service (okPayload result) fd = .error e) :
    answer service result fd w = answerError service e.raised w := by
  rw [answer, bind_ok (attempt_error (send_unwritten h))]

theorem answer_broken {text : String} (h : wireFrame service (okPayload result) fd = .ok frame)
    (hwrites : service.writes w.attempts = some text) : answer service result fd w =
      answerError service (WireError.os text).raised { w with attempts := w.attempts + 1 } := by
  rw [answer, bind_ok (attempt_error (send_broken h hwrites))]

/-- The answer to a handled request: the result, if it is sent; otherwise errors only. -/
theorem serveRequest_state {s : State}
    (h : handle service.env service.endpoint request w.server = .ok (result, fd) s) :
    ∃ answers attempts, finalState (serveRequest service request w) =
        ⟨{ w.inbox with closed := w.inbox.closed ++ fd.toList }, s, w.sent ++ answers,
          attempts⟩ ∧
      ((∃ frame, wireFrame service (okPayload result) fd = .ok frame ∧
          service.writes w.attempts = none ∧ answers = [⟨okPayload result, frame, fd⟩]) ∨
        ((∀ frame, wireFrame service (okPayload result) fd = .ok frame →
            service.writes w.attempts ≠ none) ∧
          ∃ exc, ∀ answer ∈ answers, answer.message = errorPayload service exc)) := by
  rw [serveRequest_final h]
  cases hframe : wireFrame service (okPayload result) fd with
  | error e =>
    obtain ⟨answers, attempts, hstate, hanswers⟩ :=
      answerError_state service e.raised { w with server := s }
    rw [answer_unwritten hframe, hstate]
    exact ⟨answers, attempts, rfl, .inr ⟨nofun, _, hanswers⟩⟩
  | ok frame =>
    cases hwrites : service.writes w.attempts with
    | none =>
      have hrun : answer service result fd { w with server := s } = _ :=
        answer_written hframe hwrites
      rw [hrun]
      exact ⟨_, _, rfl, .inl ⟨frame, rfl, rfl, rfl⟩⟩
    | some text =>
      obtain ⟨answers, attempts, hstate, hanswers⟩ := answerError_state service
        (WireError.os text).raised { w with server := s, attempts := w.attempts + 1 }
      have hrun : answer service result fd { w with server := s } = _ :=
        answer_broken hframe hwrites
      rw [hrun, hstate]
      exact ⟨answers, attempts, rfl, .inr ⟨fun _ _ => nofun, _, hanswers⟩⟩

/-! ### Receiving -/

/-- A whole frame is next on the connection, without a descriptor, and `rest` arrives after it. -/
def Offers (transport : Transport) (arrivals : List Arrival) (frame : List UInt8)
    (rest : List Arrival) : Prop :=
  ∃ chunks, arrivals = chunks.map .chunk ++ rest ∧ chunks.flatMap Chunk.bytes = frame ∧
    firstRights chunks = [] ∧ (transport = .pipe → ∃ c, chunks = [c])

theorem receiveFrame_offered {payload : List UInt8} {inbox : Inbox} {rest : List Arrival}
    (hle : payload.length ≤ maxFrame)
    (hoffers : Offers service.transport inbox.arrivals (framed payload) rest) :
    receiveFrame service inbox =
      (fromExcept (decodeFrame service.text (framed payload)) >>= fun message =>
        pure (message, none)) { inbox with arrivals := rest } := by
  obtain ⟨arrivals, delivered, closed⟩ := inbox
  obtain ⟨chunks, rfl, hchunks, hrights, hsole⟩ := hoffers
  unfold receiveFrame connRecv
  cases htransport : service.transport with
  | socket hasRecvmsg =>
    dsimp only
    rw [recvFrameWithOptionalFd_chunks hle hchunks fun _ => hrights, hrights, acceptFrame,
      if_neg (by simp), List.tail_nil, List.append_nil, List.append_nil]
    cases decodeFrame service.text (framed payload) with
    | ok message => rfl
    | error e => simp [closeDescriptors, bind_run]
  | pipe =>
    obtain ⟨c, rfl⟩ := hsole htransport
    have hc : c.bytes = framed payload := by
      rw [← hchunks]
      exact (List.append_nil _).symm
    have hlength := framed_length payload
    have hread : recvPipeFrame service.text ⟨[c].map .chunk ++ rest, delivered, closed⟩ =
        fromExcept (decodeFrame service.text (framed payload)) ⟨rest, delivered, closed⟩ := by
      show (if maxFrame + frameHeaderSize < c.bytes.length then _ else _) = _
      rw [hc, if_neg (by omega)]
      rfl
    dsimp only
    rw [bind_run, hread, bind_run]

theorem onInbox_ok {α : Type} {x : Receive α} {a : α} {inbox : Inbox}
    (h : x w.inbox = .ok a inbox) : onInbox x w = .ok a { w with inbox := inbox } := by
  rw [onInbox, h]

theorem onInbox_error {α : Type} {x : Receive α} {e : WireError} {inbox : Inbox}
    (h : x w.inbox = .error e inbox) : onInbox x w = .error e { w with inbox := inbox } := by
  rw [onInbox, h]

theorem serveOnce_request {inbox : Inbox}
    (h : receiveFrame service w.inbox = .ok (request, none) inbox) :
    serveOnce service w = serveRequest service request { w with inbox := inbox } := by
  rw [serveOnce, bind_ok (attempt_ok (onInbox_ok h))]

end Runs
end Npb.Mstore
