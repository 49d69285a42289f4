import Mathlib.Logic.Function.Basic
import Npb.Foundations.Runs
import Npb.Mstore.Protocol

/-! # Requests of a shared client

Threads share one `Client`. A thread that makes a request holds the lock, sends its frame in
pieces and reads the response in chunks; the servers of all connections ever made go on meanwhile,
and sending or receiving can fail at any time. A connection is calm when each frame sent on it has
been answered and the answer has been read to its end, and only a calm connection is kept. -/

namespace Npb.Mstore.Control
set_option autoImplicit false

/-! ## Connections -/

/-- An answer of the server: which bytes of the client's stream it answers, the payload of its
frame, and the descriptor that goes with it. -/
structure Answer where
  start : ℕ
  stop : ℕ
  payload : List UInt8
  fd : Option ℕ
  payload_lt : payload.length < 2 ^ 32

def Answer.wire (a : Answer) : List UInt8 := framed a.payload

/-- A connection with both its streams: what the client has sent and how far the server has read
it, the server's answers and how many of their bytes the client has read. -/
structure Link where
  transport : Transport
  outgoing : List UInt8
  parsed : ℕ
  answers : List Answer
  consumed : ℕ

namespace Link

def new (transport : Transport) : Link := ⟨transport, [], 0, [], 0⟩

def incoming (l : Link) : List UInt8 := l.answers.flatMap Answer.wire

def unread (l : Link) : List UInt8 := l.incoming.drop l.consumed

end Link

/-- The descriptor attached to the byte at a place in the stream of answers. -/
def descriptorAt : List Answer → ℕ → Option ℕ
  | [], _ => none
  | a :: as, place =>
    if place = 0 then a.fd
    else if place < a.wire.length then none
    else descriptorAt as (place - a.wire.length)

/-- The descriptor that the first read takes; only `recvmsg` takes one. -/
def Link.descriptor (l : Link) : Option ℕ :=
  match l.transport with
  | .socket true => descriptorAt l.answers l.consumed
  | _ => none

/-- What one read can deliver: the next bytes of a socket, or the next message of a pipe. -/
def Link.Delivers (l : Link) (limit : ℕ) (chunk : List UInt8) : Prop :=
  chunk ≠ [] ∧ chunk <+: l.unread ∧
    match l.transport with
    | .socket _ => chunk.length ≤ limit
    | .pipe => ∃ a ∈ l.answers, chunk = a.wire

/-- The place after the frame at the front of what the server has not read. -/
def Link.frameEnd (l : Link) : ℕ :=
  l.parsed + frameHeaderSize + frameSize (l.outgoing.drop l.parsed)

/-- The server has received the next frame whole. -/
def Link.Pending (l : Link) : Prop :=
  l.parsed + frameHeaderSize ≤ l.outgoing.length ∧ l.frameEnd ≤ l.outgoing.length

instance (l : Link) : Decidable l.Pending := inferInstanceAs (Decidable (_ ∧ _))

/-! ## Threads -/

/-- Where a thread is in `_request`. -/
inductive Place where
  | idle
  | entered (message : Message)
  | connected (message : Message) (conn : ℕ)
  | sending (message : Message) (conn start : ℕ) (rest : List UInt8)
  | receiving (message : Message) (conn start stop : ℕ) (buf : List UInt8) (fd : Option ℕ)

/-- A response that `_request` has taken from its connection, with the place of the request's
frame. -/
structure Returned where
  message : Message
  conn : ℕ
  start : ℕ
  stop : ℕ
  response : Message
  fd : Option ℕ

/-- `_conn`, `_closed` and the holder of `_request_lock`, with the connections, the threads and the
responses returned so far. -/
structure Client (T : Type) where
  links : List Link
  current : Option ℕ
  closed : Bool
  holder : Option T
  thread : T → Place
  log : List Returned

variable {T : Type}

def Client.new : Client T := ⟨[], none, false, none, fun _ => .idle, []⟩

/-- What `except` does: after an exception it catches, the connection is dropped. -/
def Client.recover (s : Client T) (e : WireError) : Client T :=
  if e.caught then { s with current := none } else s

section Steps
variable [DecidableEq T]

def Client.at (s : Client T) (t : T) (place : Place) : Client T :=
  { s with thread := Function.update s.thread t place }

/-- The thread leaves the lock. -/
def Client.leave (s : Client T) (t : T) : Client T := { s.at t .idle with holder := none }

def Client.setLink (s : Client T) (conn : ℕ) (l : Link) : Client T :=
  { s with links := s.links.set conn l }

variable (text : JsonText)

/-- One step of a thread, or of the server of a connection. -/
inductive Step (s : Client T) : Option T → Client T → Prop
  | enter (t : T) (message : Message) (hlock : s.holder = none) (hplace : s.thread t = .idle) :
    Step s (some t) { s.at t (.entered message) with holder := some t }
  | refuse (t : T) (message : Message) (hplace : s.thread t = .entered message)
    (hclosed : s.closed = true) : Step s (some t) (s.leave t)
  | connectFailed (t : T) (message : Message) (hplace : s.thread t = .entered message)
    (hclosed : s.closed = false) (hcurrent : s.current = none) : Step s (some t) (s.leave t)
  | connect (t : T) (message : Message) (transport : Transport)
    (hplace : s.thread t = .entered message) (hclosed : s.closed = false)
    (hcurrent : s.current = none) :
    Step s (some t) { s.at t (.connected message s.links.length) with
      links := s.links ++ [.new transport]
      current := some s.links.length }
  | reuse (t : T) (message : Message) (conn : ℕ) (hplace : s.thread t = .entered message)
    (hclosed : s.closed = false) (hcurrent : s.current = some conn) :
    Step s (some t) (s.at t (.connected message conn))
  | encodeFailed (t : T) (message : Message) (conn : ℕ) (e : WireError)
    (hplace : s.thread t = .connected message conn) (he : encodeFrame text message = .error e) :
    Step s (some t) ((s.recover e).leave t)
  | encode (t : T) (message : Message) (conn : ℕ) (l : Link) (frame : List UInt8)
    (hplace : s.thread t = .connected message conn) (hl : s.links[conn]? = some l)
    (hframe : encodeFrame text message = .ok frame) :
    Step s (some t) (s.at t (.sending message conn l.outgoing.length frame))
  | send (t : T) (message : Message) (conn start n : ℕ) (rest : List UInt8) (l : Link)
    (hplace : s.thread t = .sending message conn start rest) (hl : s.links[conn]? = some l)
    (hn : 0 < n) (hle : n ≤ rest.length) :
    Step s (some t) ((s.setLink conn { l with outgoing := l.outgoing ++ rest.take n }).at t
      (if n = rest.length then .receiving message conn start (l.outgoing.length + n) [] none
        else .sending message conn start (rest.drop n)))
  | sendFailed (t : T) (message : Message) (conn start : ℕ) (rest : List UInt8)
    (hplace : s.thread t = .sending message conn start rest) :
    Step s (some t) ({ s with current := none }.leave t)
  | receive (t : T) (message : Message) (conn start stop limit : ℕ) (buf : List UInt8)
    (fd : Option ℕ) (l : Link) (chunk : List UInt8)
    (hplace : s.thread t = .receiving message conn start stop buf fd)
    (hl : s.links[conn]? = some l) (hmore : received text l.transport buf = .more limit)
    (hchunk : l.Delivers limit chunk) :
    Step s (some t) ((s.setLink conn { l with consumed := l.consumed + chunk.length }).at t
      (.receiving message conn start stop (buf ++ chunk)
        (if buf = [] then l.descriptor else fd)))
  /-- The stream ends, the read times out, or the connection fails. -/
  | receiveFailed (t : T) (message : Message) (conn start stop : ℕ) (buf : List UInt8)
    (fd : Option ℕ) (hplace : s.thread t = .receiving message conn start stop buf fd) :
    Step s (some t) ({ s with current := none }.leave t)
  | decodeFailed (t : T) (message : Message) (conn start stop : ℕ) (buf : List UInt8)
    (fd : Option ℕ) (l : Link) (e : WireError)
    (hplace : s.thread t = .receiving message conn start stop buf fd)
    (hl : s.links[conn]? = some l) (he : received text l.transport buf = .failed e) :
    Step s (some t) ((s.recover e).leave t)
  | finish (t : T) (message : Message) (conn start stop : ℕ) (buf : List UInt8)
    (fd : Option ℕ) (l : Link) (response : Message)
    (hplace : s.thread t = .receiving message conn start stop buf fd)
    (hl : s.links[conn]? = some l) (hdone : received text l.transport buf = .done response) :
    Step s (some t) { s.leave t with
      log := s.log ++ [⟨message, conn, start, stop, response, fd⟩] }
  | close (t : T) (hlock : s.holder = none) :
    Step s (some t) { s with current := none, closed := true }
  /-- The server of a connection reads the next frame, and answers it at most once. -/
  | serve (conn : ℕ) (l : Link) (answer : Option Answer) (hl : s.links[conn]? = some l)
    (hpending : l.Pending)
    (hanswer : ∀ a ∈ answer, a.start = l.parsed ∧ a.stop = l.frameEnd) :
    Step s none (s.setLink conn
      { l with parsed := l.frameEnd, answers := l.answers ++ answer.toList })

end Steps

/-! ## Responses and requests -/

/-- The response was decoded from the one answer to the frame of this request. -/
structure Matches (text : JsonText) (links : List Link) (r : Returned) : Prop where
  answered : ∃ l a, links[r.conn]? = some l ∧ a ∈ l.answers ∧ a.start = r.start ∧
    a.stop = r.stop ∧ decodeFrame text a.wire = .ok r.response ∧ (∀ d ∈ r.fd, d ∈ a.fd) ∧
    ∀ b ∈ l.answers, b.start = r.start → b = a
  own : ∃ l, links[r.conn]? = some l ∧
    encodeFrame text r.message = .ok ((l.outgoing.take r.stop).drop r.start)

/-! ## What a connection in use looks like -/

/-- Answers come in the order of the frames they answer. -/
structure Link.Ordered (l : Link) : Prop where
  answered : ∀ a ∈ l.answers, a.start < a.stop ∧ a.stop ≤ l.parsed
  apart : l.answers.Pairwise fun a b => a.stop ≤ b.start

/-- Every frame has been read and answered, and every answer has been read. -/
structure Link.Calm (l : Link) : Prop where
  parsed : l.parsed = l.outgoing.length
  consumed : l.consumed = l.incoming.length

/-- A part of a frame has been sent. -/
structure Link.Sending (l : Link) (frame : List UInt8) (start : ℕ) (rest : List UInt8) : Prop where
  parsed : l.parsed = start
  start_le : start ≤ l.outgoing.length
  consumed : l.consumed = l.incoming.length
  sent : l.outgoing.drop start ++ rest = frame
  unsent : rest ≠ []

/-- A frame has been sent; its answer, if there is one, has been read up to `buf`. -/
structure Link.Receiving (l : Link) (frame : List UInt8) (start stop : ℕ) (buf : List UInt8)
    (fd : Option ℕ) : Prop where
  start_le : start ≤ stop
  whole : l.outgoing.length = stop
  sent : l.outgoing.drop start = frame
  progress :
    (buf = [] ∧ fd = none ∧ l.consumed = l.incoming.length ∧
      (l.parsed = start ∨ l.parsed = stop)) ∨
    (l.parsed = stop ∧ ∃ before a, l.answers = before ++ [a] ∧ a.start = start ∧ a.stop = stop ∧
      l.consumed = (before.flatMap Answer.wire).length + buf.length ∧ buf <+: a.wire ∧
      (buf = [] → fd = none) ∧ ∀ d ∈ fd, d ∈ a.fd)

section Links
variable {text : JsonText} {l : Link} {frame rest buf : List UInt8} {start stop : ℕ}
  {fd : Option ℕ} {message : Message}

theorem Link.Calm.not_pending (h : l.Calm) : ¬ l.Pending := by
  intro hpending
  have hle := hpending.1
  rw [h.parsed] at hle
  unfold frameHeaderSize at hle
  omega

theorem frameEnd_eq (hframe : encodeFrame text message = .ok frame)
    (hpre : l.outgoing.drop l.parsed <+: frame)
    (hheader : l.parsed + frameHeaderSize ≤ l.outgoing.length) :
    l.frameEnd = l.parsed + frame.length := by
  obtain ⟨payload, rfl, hlt⟩ := encodeFrame_ok hframe
  have hlength : frameHeaderSize ≤ (l.outgoing.drop l.parsed).length := by
    rw [List.length_drop]
    omega
  unfold Link.frameEnd
  rw [frameSize_prefixed hlt hpre hlength, framed_length]
  omega

theorem Link.Sending.not_pending (h : l.Sending frame start rest)
    (hframe : encodeFrame text message = .ok frame) : ¬ l.Pending := by
  intro hpending
  have hpre : l.outgoing.drop l.parsed <+: frame := by
    rw [h.parsed]
    exact ⟨rest, h.sent⟩
  have hend := frameEnd_eq hframe hpre hpending.1
  have hle := hpending.2
  rw [hend, h.parsed] at hle
  have hlength := congrArg List.length h.sent
  rw [List.length_append, List.length_drop] at hlength
  have hrest := List.length_pos_iff.mpr h.unsent
  omega

theorem Link.Receiving.serve (h : l.Receiving frame start stop buf fd)
    (hframe : encodeFrame text message = .ok frame) (hpending : l.Pending) {answer : Option Answer}
    (hanswer : ∀ a ∈ answer, a.start = l.parsed ∧ a.stop = l.frameEnd) :
    Link.Receiving { l with parsed := l.frameEnd, answers := l.answers ++ answer.toList } frame
      start stop buf fd := by
  have hheader := hpending.1
  have hparsed : l.parsed ≠ stop := by
    intro hparsed
    rw [hparsed, h.whole] at hheader
    unfold frameHeaderSize at hheader
    omega
  obtain ⟨hbuf, hfd, hconsumed, hstart⟩ | ⟨hstop, -⟩ := h.progress
  · have hstart : l.parsed = start := hstart.resolve_right hparsed
    have hpre : l.outgoing.drop l.parsed <+: frame := by
      rw [hstart]
      exact h.sent ▸ List.prefix_refl _
    have hend : l.frameEnd = stop := by
      rw [frameEnd_eq hframe hpre hheader, hstart, ← h.sent, List.length_drop, h.whole]
      have hle := h.start_le
      omega
    refine ⟨h.start_le, h.whole, h.sent, ?_⟩
    cases answer with
    | none =>
      refine .inl ⟨hbuf, hfd, ?_, .inr hend⟩
      simpa [Link.incoming] using hconsumed
    | some a =>
      obtain ⟨hastart, hastop⟩ := hanswer a rfl
      refine .inr ⟨hend, l.answers, a, rfl, hastart.trans hstart, hastop.trans hend, ?_, ?_,
        fun _ => hfd, ?_⟩
      · rw [hbuf, hconsumed]
        rfl
      · rw [hbuf]
        exact List.nil_prefix
      · rw [hfd]
        simp
  · exact absurd hstop hparsed

theorem Link.Ordered.serve (h : l.Ordered) {answer : Option Answer} {l' : Link}
    (hanswer : ∀ a ∈ answer, a.start = l.parsed ∧ a.stop = l.frameEnd)
    (hl' : l' = { l with parsed := l.frameEnd, answers := l.answers ++ answer.toList }) :
    l'.Ordered := by
  have hlt : l.parsed < l.frameEnd := by
    unfold Link.frameEnd frameHeaderSize
    omega
  subst hl'
  refine ⟨?_, ?_⟩
  · intro a ha
    obtain ha | ha := List.mem_append.mp ha
    · obtain ⟨hstart, hstop⟩ := h.answered a ha
      exact ⟨hstart, hstop.trans (Nat.le_of_lt hlt)⟩
    · obtain ⟨hstart, hstop⟩ := hanswer a (Option.mem_toList.mp ha)
      rw [hstart, hstop]
      exact ⟨hlt, Nat.le_refl _⟩
  · rw [List.pairwise_append]
    refine ⟨h.apart, ?_, ?_⟩
    · cases answer with
      | none => exact .nil
      | some a => exact List.pairwise_singleton _ a
    · intro a ha b hb
      rw [(hanswer b (Option.mem_toList.mp hb)).1]
      exact (h.answered a ha).2

theorem Link.Calm.sending (h : l.Calm) (hframe : encodeFrame text message = .ok frame) :
    l.Sending frame l.outgoing.length frame := by
  obtain ⟨payload, rfl, -⟩ := encodeFrame_ok hframe
  refine ⟨h.parsed, Nat.le_refl _, h.consumed, by simp, ?_⟩
  rw [← List.length_pos_iff, framed_length]
  unfold frameHeaderSize
  omega

theorem Link.Sending.more (h : l.Sending frame start rest) {n : ℕ} (hn : n < rest.length) :
    Link.Sending { l with outgoing := l.outgoing ++ rest.take n } frame start (rest.drop n) := by
  refine ⟨h.parsed, ?_, h.consumed, ?_, ?_⟩
  · rw [List.length_append]
    exact h.start_le.trans (Nat.le_add_right _ _)
  · rw [List.drop_append_of_le_length h.start_le, List.append_assoc, List.take_append_drop, h.sent]
  · rw [← List.length_pos_iff, List.length_drop]
    omega

theorem Link.Sending.last (h : l.Sending frame start rest) :
    Link.Receiving { l with outgoing := l.outgoing ++ rest.take rest.length } frame start
      (l.outgoing.length + rest.length) [] none := by
  rw [List.take_length]
  refine ⟨h.start_le.trans (Nat.le_add_right _ _), List.length_append, ?_, ?_⟩
  · rw [List.drop_append_of_le_length h.start_le, h.sent]
  · exact .inl ⟨rfl, rfl, h.consumed, .inl h.parsed⟩

theorem descriptorAt_last (before : List Answer) (a : Answer) :
    descriptorAt (before ++ [a]) (before.flatMap Answer.wire).length = a.fd := by
  induction before with
  | nil => rfl
  | cons b before ih =>
    have hwire : 0 < b.wire.length := by
      rw [Answer.wire, framed_length]
      unfold frameHeaderSize
      omega
    rw [List.cons_append, List.flatMap_cons, List.length_append, descriptorAt,
      if_neg (by omega), if_neg (by omega), Nat.add_sub_cancel_left]
    exact ih

theorem Link.Receiving.receive (h : l.Receiving frame start stop buf fd) {limit : ℕ}
    {chunk : List UInt8} (hchunk : l.Delivers limit chunk) :
    Link.Receiving { l with consumed := l.consumed + chunk.length } frame start stop (buf ++ chunk)
      (if buf = [] then l.descriptor else fd) := by
  obtain ⟨hne, hpre, -⟩ := hchunk
  refine ⟨h.start_le, h.whole, h.sent, ?_⟩
  rcases h.progress with ⟨-, -, hconsumed, -⟩ |
    ⟨hparsed, before, a, hanswers, hstart, hstop, hconsumed, hbuf, -, hfd⟩
  · unfold Link.unread at hpre
    rw [hconsumed, List.drop_length, List.prefix_nil] at hpre
    exact absurd hpre hne
  · refine .inr ⟨hparsed, before, a, hanswers, hstart, hstop, ?_, ?_, ?_, ?_⟩
    · rw [hconsumed, List.length_append, Nat.add_assoc]
    · have hunread : l.unread = a.wire.drop buf.length := by
        unfold Link.unread Link.incoming
        rw [hanswers, List.flatMap_append, hconsumed, List.flatMap_singleton,
          List.drop_append, List.drop_of_length_le (Nat.le_add_right _ _),
          Nat.add_sub_cancel_left, List.nil_append]
      rw [hunread] at hpre
      obtain ⟨after, hbuf⟩ := hbuf
      rw [← hbuf, List.drop_left] at hpre
      obtain ⟨more, hmore⟩ := hpre
      exact ⟨more, by rw [List.append_assoc, hmore, hbuf]⟩
    · intro hnil
      exact absurd (List.append_eq_nil_iff.mp hnil).2 hne
    · by_cases hnil : buf = []
      · rw [if_pos hnil]
        rw [hnil, List.length_nil, Nat.add_zero] at hconsumed
        have hplace : descriptorAt l.answers l.consumed = a.fd := by
          rw [hanswers, hconsumed, descriptorAt_last]
        unfold Link.descriptor
        split
        · rw [hplace]
          exact fun d hd => hd
        · simp
      · rw [if_neg hnil]
        exact hfd

/-- Once a whole frame has been read, it is the answer, and nothing else is in flight. -/
theorem Link.Receiving.complete (h : l.Receiving frame start stop buf fd)
    (hend : ∀ limit, received text l.transport buf ≠ .more limit)
    (hcaught : ∀ e, received text l.transport buf = .failed e → e.caught = false) :
    l.Calm ∧ ∃ a ∈ l.answers, a.start = start ∧ a.stop = stop ∧ buf = a.wire ∧
      ∀ d ∈ fd, d ∈ a.fd := by
  obtain ⟨hlength, -⟩ := received_complete hend hcaught
  rcases h.progress with ⟨hbuf, -, -, -⟩ |
    ⟨hparsed, before, a, hanswers, hstart, hstop, hconsumed, hbuf, -, hfd⟩
  · obtain ⟨limit, hmore⟩ := received_nil text l.transport
    rw [hbuf] at hend
    exact absurd hmore (hend limit)
  · have hsize : frameSize buf = a.payload.length :=
      frameSize_prefixed a.payload_lt hbuf (by omega)
    have hwire : buf = a.wire := by
      apply hbuf.eq_of_length
      rw [hlength, hsize, Answer.wire, framed_length]
    refine ⟨⟨hparsed.trans h.whole.symm, ?_⟩, a, ?_, hstart, hstop, hwire, hfd⟩
    · unfold Link.incoming
      rw [hconsumed, hanswers, List.flatMap_append, List.length_append, List.flatMap_singleton,
        hwire]
    · rw [hanswers]
      exact List.mem_append_right _ (List.mem_singleton_self a)

end Links

end Npb.Mstore.Control
