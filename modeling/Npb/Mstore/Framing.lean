import Npb.Mstore.Protocol

/-! # Receiving frames

`recv_frame` and `recv_frame_with_optional_fd` on a socket that hands out the bytes of its peer in
any chunks. What they return depends on the bytes that arrive before the stream ends or fails
(`ahead`), not on how they are cut (`framing_independent`). -/

namespace Npb.Mstore
set_option autoImplicit false
open Effects

/-! ## Sockets -/

/-- Bytes that arrive together, and the descriptors attached to the first of them. -/
structure Chunk where
  first : UInt8
  rest : List UInt8
  rights : List ℕ

def Chunk.bytes (c : Chunk) : List UInt8 := c.first :: c.rest

inductive Arrival where
  | chunk (c : Chunk)
  /-- `OSError`: the read times out, or the connection is broken. -/
  | failed (message : String)

/-- What is still to arrive before the peer closes the stream, the descriptors that `recvmsg` has
delivered to the process, and those that it has closed. -/
structure Inbox where
  arrivals : List Arrival
  delivered : List ℕ
  closed : List ℕ

abbrev Receive (α : Type) := EStateM WireError Inbox α

/-- The bytes of a chunk that have not been read; its descriptors are gone. -/
def putBack (bytes : List UInt8) (later : List Arrival) : List Arrival :=
  match bytes with
  | [] => later
  | first :: rest => .chunk ⟨first, rest, []⟩ :: later

/-- `sock.recv(limit)`; descriptors attached to what it reads are dropped by the kernel. -/
def recv (limit : ℕ) : Receive (List UInt8) := fun inbox =>
  match inbox.arrivals with
  | [] => .ok [] inbox
  | .failed message :: later => .error (.os message) { inbox with arrivals := later }
  | .chunk c :: later => .ok (c.bytes.take limit)
      { inbox with arrivals := putBack (c.bytes.drop limit) later }

/-- `sock.recvmsg(limit, ancbuf)`, with the descriptors of its ancillary data. -/
def recvMsg (limit : ℕ) : Receive (List UInt8 × List ℕ) := fun inbox =>
  match inbox.arrivals with
  | [] => .ok ([], []) inbox
  | .failed message :: later => .error (.os message) { inbox with arrivals := later }
  | .chunk c :: later => .ok (c.bytes.take limit, c.rights)
      { inbox with
        arrivals := putBack (c.bytes.drop limit) later
        delivered := inbox.delivered ++ c.rights }

/-- `os.close` on each of them. -/
def closeDescriptors (fds : List ℕ) : Receive Unit :=
  modify fun inbox => { inbox with closed := inbox.closed ++ fds }

/-! ## Receivers -/

/-- The loop of `recv_exact`: every round reads a byte at least. -/
def recvLoop : ℕ → ℕ → Receive (List UInt8)
  | 0, _ => return []
  | rounds + 1, remaining =>
    if remaining = 0 then return []
    else do
      let chunk ← recv remaining
      if chunk = [] then throw .eof
      else do
        let chunks ← recvLoop rounds (remaining - chunk.length)
        return chunk ++ chunks

def recvExact (size : ℕ) : Receive (List UInt8) := recvLoop size size

/-- `buf.extend(recv_exact(total - len(buf)))`, if bytes are missing. -/
def extendTo (total : ℕ) (buf : List UInt8) : Receive (List UInt8) :=
  if buf.length < total then do
    let missing ← recvExact (total - buf.length)
    return buf ++ missing
  else return buf

section Receivers
variable (text : JsonText)

def tooLong : WireError := .protocol "control frame exceeds 4194304 bytes"

def recvFrame : Receive Message := do
  let header ← recvExact frameHeaderSize
  if maxFrame < frameSize header then throw tooLong
  else do
    let payload ← recvExact (frameSize header)
    fromExcept (decodeFrame text (header ++ payload))

/-- The frame whose bytes have all been read; if anything is wrong with it `fd` is closed. -/
def acceptFrame (total : ℕ) (buf : List UInt8) (fd : Option ℕ) : Receive (Message × Option ℕ) :=
  if buf.length ≠ total then do
    closeDescriptors fd.toList
    throw (.protocol "received bytes beyond the end of a control frame")
  else
    match decodeFrame text buf with
    | .ok message => return (message, fd)
    | .error e => do
      closeDescriptors fd.toList
      throw e

/-- `recv_frame_with_optional_fd` behind `recvmsg`: nothing closes `fd` when reading fails. -/
def readFrame (buf : List UInt8) (fd : Option ℕ) : Receive (Message × Option ℕ) := do
  let buf ← extendTo frameHeaderSize buf
  let size := frameSize buf
  if maxFrame < size then do
    closeDescriptors fd.toList
    throw tooLong
  else do
    let buf ← extendTo (frameHeaderSize + size) buf
    acceptFrame text (frameHeaderSize + size) buf fd

/-- `hasRecvmsg` is `hasattr(sock, "recvmsg")`. -/
def recvFrameWithOptionalFd (hasRecvmsg : Bool) : Receive (Message × Option ℕ) :=
  if hasRecvmsg then do
    let (first, ints) ← recvMsg (64 * 1024)
    if first = [] then throw .eof
    else do
      closeDescriptors ints.tail
      readFrame text first ints.head?
  else do
    let message ← recvFrame text
    return (message, none)

/-- A chunk is a message of the pipe. -/
def recvPipeFrame : Receive Message := fun inbox =>
  match inbox.arrivals with
  | [] => .error .eof inbox
  | .failed message :: later => .error (.os message) { inbox with arrivals := later }
  | .chunk c :: later =>
    if maxFrame + frameHeaderSize < c.bytes.length then
      .error (.os "bad message length") { inbox with arrivals := later }
    else fromExcept (decodeFrame text c.bytes) { inbox with arrivals := later }

/-- `conn.recv()`. -/
def connRecv (transport : Transport) : Receive (Message × Option ℕ) :=
  match transport with
  | .socket hasRecvmsg => recvFrameWithOptionalFd text hasRecvmsg
  | .pipe => do
    let message ← recvPipeFrame text
    return (message, none)

end Receivers

/-! ## What arrives -/

/-- The bytes that arrive before the stream ends or fails. -/
def ahead : List Arrival → List UInt8
  | .chunk c :: later => c.bytes ++ ahead later
  | _ => []

/-- What arrives after the next `n` bytes. -/
def skip (n : ℕ) : List Arrival → List Arrival
  | .chunk c :: later =>
    if n = 0 then .chunk c :: later
    else if n < c.bytes.length then putBack (c.bytes.drop n) later
    else skip (n - c.bytes.length) later
  | arrivals => arrivals

section Arrivals
variable {arrivals later : List Arrival} {c : Chunk} {n k : ℕ}

@[simp] theorem ahead_chunk : ahead (.chunk c :: later) = c.bytes ++ ahead later := rfl

@[simp] theorem ahead_putBack (bytes : List UInt8) :
    ahead (putBack bytes later) = bytes ++ ahead later := by
  cases bytes with
  | nil => rfl
  | cons first rest => rfl

@[simp] theorem skip_zero : skip 0 arrivals = arrivals := by
  unfold skip
  split <;> simp

theorem skip_chunk (h : c.bytes.length ≤ n) : skip n (.chunk c :: later) =
    skip (n - c.bytes.length) later := by
  have hc : 0 < c.bytes.length := Nat.succ_pos _
  rw [skip, if_neg (by omega), if_neg (by omega)]

theorem skip_within (hn : n ≠ 0) (h : n ≤ c.bytes.length) : skip n (.chunk c :: later) =
    putBack (c.bytes.drop n) later := by
  by_cases hlt : n < c.bytes.length
  · rw [skip, if_neg hn, if_pos hlt]
  · have heq : n = c.bytes.length := by omega
    rw [skip_chunk (by omega), heq, Nat.sub_self, skip_zero, List.drop_length]
    rfl

theorem skip_putBack (bytes : List UInt8) (h : bytes.length ≤ n) :
    skip n (putBack bytes later) = skip (n - bytes.length) later := by
  cases bytes with
  | nil => rfl
  | cons first rest => exact skip_chunk h

theorem skip_putBack_within (bytes : List UInt8) (h : n ≤ bytes.length) :
    skip n (putBack bytes later) = if n = 0 then putBack bytes later
      else putBack (bytes.drop n) later := by
  by_cases hn : n = 0
  · rw [if_pos hn, hn, skip_zero]
  · rw [if_neg hn]
    cases bytes with
    | nil => exact absurd (Nat.le_zero.mp h) hn
    | cons first rest => exact skip_within hn h

theorem skip_skip (arrivals : List Arrival) (n k : ℕ) (h : n ≤ (ahead arrivals).length) :
    skip k (skip n arrivals) = skip (n + k) arrivals := by
  induction arrivals generalizing n with
  | nil => rfl
  | cons arrival later ih =>
    cases arrival with
    | failed message => rfl
    | chunk c =>
      rw [ahead_chunk, List.length_append] at h
      by_cases hn : n = 0
      · rw [hn, skip_zero, Nat.zero_add]
      by_cases hlt : n ≤ c.bytes.length
      · rw [skip_within hn hlt]
        by_cases hk : (c.bytes.drop n).length ≤ k
        · rw [skip_putBack _ hk, List.length_drop, skip_chunk (by simp at hk; omega)]
          congr 1
          simp at hk
          omega
        · rw [skip_putBack_within _ (by omega)]
          simp only [List.length_drop] at hk
          by_cases hzero : k = 0
          · rw [if_pos hzero, hzero, Nat.add_zero, skip_within hn hlt]
          · rw [if_neg hzero, skip_within (by omega) (by omega), List.drop_drop]
      · rw [skip_chunk (by omega), ih _ (by omega), skip_chunk (by omega)]
        congr 1
        omega

theorem ahead_skip (arrivals : List Arrival) (n : ℕ) :
    ahead (skip n arrivals) = (ahead arrivals).drop n := by
  induction arrivals generalizing n with
  | nil => simp [skip, ahead]
  | cons arrival later ih =>
    cases arrival with
    | failed message => simp [skip, ahead]
    | chunk c =>
      by_cases hn : n = 0
      · rw [hn, skip_zero, List.drop_zero]
      by_cases hlt : n ≤ c.bytes.length
      · rw [skip_within hn hlt, ahead_putBack, ahead_chunk, List.drop_append_of_le_length hlt]
      · have hnone : c.bytes.drop n = [] := List.drop_eq_nil_of_le (by omega)
        rw [skip_chunk (by omega), ih, ahead_chunk, List.drop_append, hnone, List.nil_append]

end Arrivals

/-! ## Reading exactly -/

/-- The stream ends or fails. -/
def WireError.IsBroken (e : WireError) : Prop := e = .eof ∨ ∃ message, e = .os message

section Exactly
variable {arrivals : List Arrival} {delivered closed : List ℕ} {rounds n : ℕ}

theorem recvLoop_run (rounds n : ℕ) (arrivals : List Arrival) (hrounds : n ≤ rounds)
    (h : n ≤ (ahead arrivals).length) :
    recvLoop rounds n ⟨arrivals, delivered, closed⟩ =
      .ok ((ahead arrivals).take n) ⟨skip n arrivals, delivered, closed⟩ := by
  induction rounds generalizing n arrivals with
  | zero =>
    cases Nat.le_zero.mp hrounds
    rw [recvLoop, skip_zero]
    rfl
  | succ rounds ih =>
    by_cases hn : n = 0
    · rw [recvLoop, if_pos hn, hn, skip_zero]
      rfl
    rw [recvLoop, if_neg hn]
    cases arrivals with
    | nil => exact absurd (Nat.le_zero.mp h) hn
    | cons arrival later =>
    cases arrival with
    | failed message => exact absurd (Nat.le_zero.mp h) hn
    | chunk c =>
      rw [ahead_chunk, List.length_append] at h
      have hpos : 0 < c.bytes.length := Nat.succ_pos _
      have hread : recv n ⟨.chunk c :: later, delivered, closed⟩ = .ok (c.bytes.take n)
          ⟨putBack (c.bytes.drop n) later, delivered, closed⟩ := rfl
      have hsome : c.bytes.take n ≠ [] := by simp [Chunk.bytes, hn]
      rw [bind_ok hread, if_neg hsome]
      by_cases hlt : n ≤ c.bytes.length
      · have hdone : n - (c.bytes.take n).length = 0 := by
          rw [List.length_take]
          omega
        rw [hdone, bind_ok (ih 0 _ (Nat.zero_le _) (Nat.zero_le _)), skip_zero,
          skip_within hn hlt, ahead_chunk, List.take_append_of_le_length hlt, List.take_zero,
          List.append_nil]
        rfl
      · have hall : c.bytes.take n = c.bytes := List.take_of_length_le (by omega)
        have hnone : c.bytes.drop n = [] := List.drop_eq_nil_of_le (by omega)
        rw [hall, hnone, putBack, bind_ok (ih _ later (by omega) (by omega)),
          skip_chunk (by omega), ahead_chunk, List.take_append, hall]
        rfl

theorem recvLoop_short (rounds n : ℕ) (arrivals : List Arrival) (hrounds : n ≤ rounds)
    (h : (ahead arrivals).length < n) :
    ∃ e later, e.IsBroken ∧ recvLoop rounds n ⟨arrivals, delivered, closed⟩ =
      .error e ⟨later, delivered, closed⟩ := by
  induction rounds generalizing n arrivals with
  | zero => omega
  | succ rounds ih =>
    rw [recvLoop, if_neg (by omega)]
    cases arrivals with
    | nil => exact ⟨.eof, [], .inl rfl, rfl⟩
    | cons arrival later =>
    cases arrival with
    | failed message => exact ⟨.os message, later, .inr ⟨message, rfl⟩, rfl⟩
    | chunk c =>
      rw [ahead_chunk, List.length_append] at h
      have hpos : 0 < c.bytes.length := Nat.succ_pos _
      have hread : recv n ⟨.chunk c :: later, delivered, closed⟩ = .ok c.bytes
          ⟨later, delivered, closed⟩ := by
        have hall : c.bytes.take n = c.bytes := List.take_of_length_le (by omega)
        have hnone : c.bytes.drop n = [] := List.drop_eq_nil_of_le (by omega)
        show EStateM.Result.ok (c.bytes.take n) _ = _
        rw [hall, hnone]
        rfl
      have hsome : c.bytes ≠ [] := nofun
      obtain ⟨e, later', hbroken, hrun⟩ := ih (n - c.bytes.length) later (by omega) (by omega)
      refine ⟨e, later', hbroken, ?_⟩
      rw [bind_ok hread, if_neg hsome, bind_error hrun]

theorem recvExact_run (h : n ≤ (ahead arrivals).length) :
    recvExact n ⟨arrivals, delivered, closed⟩ =
      .ok ((ahead arrivals).take n) ⟨skip n arrivals, delivered, closed⟩ :=
  recvLoop_run n n arrivals (Nat.le_refl n) h

theorem recvExact_short (h : (ahead arrivals).length < n) :
    ∃ e later, e.IsBroken ∧ recvExact n ⟨arrivals, delivered, closed⟩ =
      .error e ⟨later, delivered, closed⟩ :=
  recvLoop_short n n arrivals (Nat.le_refl n) h

end Exactly

/-! ## Filling the buffer -/

section Filling
variable {arrivals : List Arrival} {delivered closed : List ℕ} {buf bytes : List UInt8} {total : ℕ}

/-- Where enough bytes arrive the buffer grows to `total` bytes, unless it is longer. -/
theorem extendTo_run (hbytes : buf ++ ahead arrivals = bytes) (h : total ≤ bytes.length) :
    extendTo total buf ⟨arrivals, delivered, closed⟩ =
      .ok (bytes.take (max total buf.length))
        ⟨skip (total - buf.length) arrivals, delivered, closed⟩ := by
  subst hbytes
  rw [List.length_append] at h
  unfold extendTo
  by_cases hlt : buf.length < total
  · have hall : buf.take total = buf := List.take_of_length_le (by omega)
    rw [if_pos hlt, bind_ok (recvExact_run (by omega)), Nat.max_eq_left (by omega),
      List.take_append, hall]
    rfl
  · rw [if_neg hlt, Nat.max_eq_right (by omega), Nat.sub_eq_zero_of_le (by omega), skip_zero,
      List.take_left]
    rfl

theorem extendTo_short (hbytes : buf ++ ahead arrivals = bytes) (h : bytes.length < total) :
    ∃ e later, e.IsBroken ∧ extendTo total buf ⟨arrivals, delivered, closed⟩ =
      .error e ⟨later, delivered, closed⟩ := by
  subst hbytes
  rw [List.length_append] at h
  obtain ⟨e, later, hbroken, hrun⟩ :=
    recvExact_short (show (ahead arrivals).length < total - buf.length by omega)
  refine ⟨e, later, hbroken, ?_⟩
  rw [extendTo, if_pos (by omega), bind_error hrun]

theorem extendTo_whole (hbytes : buf ++ ahead arrivals = bytes) (total : ℕ) :
    bytes.take (max total buf.length) ++ ahead (skip (total - buf.length) arrivals) = bytes := by
  subst hbytes
  rw [ahead_skip]
  by_cases hlt : buf.length < total
  · have hall : buf.take total = buf := List.take_of_length_le (by omega)
    rw [Nat.max_eq_left (by omega), List.take_append, hall, List.append_assoc,
      List.take_append_drop]
  · rw [Nat.max_eq_right (by omega), Nat.sub_eq_zero_of_le (by omega), List.take_left,
      List.drop_zero]

theorem frameSize_take {k : ℕ} (h : frameHeaderSize ≤ k) :
    frameSize (bytes.take k) = frameSize bytes := by
  rw [frameSize, frameSize, List.take_take, Nat.min_eq_left h]

end Filling

/-! ## Frames -/

/-- The bytes hold a whole frame, or a header that announces too much. -/
def Complete (bytes : List UInt8) : Prop :=
  frameHeaderSize ≤ bytes.length ∧
    (maxFrame < frameSize bytes ∨ frameHeaderSize + frameSize bytes ≤ bytes.length)

instance (bytes : List UInt8) : Decidable (Complete bytes) := inferInstanceAs (Decidable (_ ∧ _))

section Frames
variable {text : JsonText} {arrivals : List Arrival} {delivered closed : List ℕ}
  {buf bytes : List UInt8} {fd : Option ℕ}

/-- Once the header is there, `readFrame` goes on with the buffer filled up to it. -/
theorem readFrame_header (hbytes : buf ++ ahead arrivals = bytes)
    (h : frameHeaderSize ≤ bytes.length) :
    readFrame text buf fd ⟨arrivals, delivered, closed⟩ =
      (if maxFrame < frameSize bytes then do
        closeDescriptors fd.toList
        throw tooLong
      else do
        let buf ← extendTo (frameHeaderSize + frameSize bytes)
          (bytes.take (max frameHeaderSize buf.length))
        acceptFrame text (frameHeaderSize + frameSize bytes) buf fd)
        ⟨skip (frameHeaderSize - buf.length) arrivals, delivered, closed⟩ := by
  rw [readFrame, bind_ok (extendTo_run hbytes h), frameSize_take (Nat.le_max_left _ _)]

theorem readFrame_unfinished (hbytes : buf ++ ahead arrivals = bytes) (h : ¬ Complete bytes) :
    ∃ e later, e.IsBroken ∧ readFrame text buf fd ⟨arrivals, delivered, closed⟩ =
      .error e ⟨later, delivered, closed⟩ := by
  by_cases hheader : frameHeaderSize ≤ bytes.length
  · have hsize : ¬ maxFrame < frameSize bytes := fun hbig => h ⟨hheader, .inl hbig⟩
    have hshort : ¬ frameHeaderSize + frameSize bytes ≤ bytes.length :=
      fun hle => h ⟨hheader, .inr hle⟩
    obtain ⟨e, later, hbroken, hrun⟩ :=
      extendTo_short (extendTo_whole hbytes frameHeaderSize) (Nat.lt_of_not_le hshort)
    refine ⟨e, later, hbroken, ?_⟩
    rw [readFrame_header hbytes hheader, if_neg hsize]
    exact bind_error hrun _
  · obtain ⟨e, later, hbroken, hrun⟩ := extendTo_short hbytes (Nat.lt_of_not_le hheader)
    exact ⟨e, later, hbroken, bind_error hrun _⟩

theorem readFrame_tooLong (hbytes : buf ++ ahead arrivals = bytes)
    (h : frameHeaderSize ≤ bytes.length) (hbig : maxFrame < frameSize bytes) :
    readFrame text buf fd ⟨arrivals, delivered, closed⟩ =
      .error tooLong ⟨skip (frameHeaderSize - buf.length) arrivals, delivered,
        closed ++ fd.toList⟩ := by
  rw [readFrame_header hbytes h, if_pos hbig]
  rfl

/-- The whole frame is there: what is done with it depends on its bytes. -/
theorem readFrame_whole (hbytes : buf ++ ahead arrivals = bytes)
    (h : frameHeaderSize ≤ bytes.length) (hsize : frameSize bytes ≤ maxFrame)
    (htotal : frameHeaderSize + frameSize bytes ≤ bytes.length) :
    readFrame text buf fd ⟨arrivals, delivered, closed⟩ =
      acceptFrame text (frameHeaderSize + frameSize bytes)
        (bytes.take (max (frameHeaderSize + frameSize bytes) buf.length)) fd
        ⟨skip (frameHeaderSize + frameSize bytes - buf.length) arrivals, delivered, closed⟩ := by
  have hle : buf.length ≤ bytes.length := by
    rw [← hbytes, List.length_append]
    omega
  have hlength : (bytes.take (max frameHeaderSize buf.length)).length =
      max frameHeaderSize buf.length := by
    rw [List.length_take]
    omega
  have hahead : frameHeaderSize - buf.length ≤ (ahead arrivals).length := by
    rw [← hbytes, List.length_append] at h
    omega
  rw [readFrame_header hbytes h, if_neg (by omega),
    bind_ok (extendTo_run (extendTo_whole hbytes frameHeaderSize) htotal), hlength,
    skip_skip _ _ _ hahead]
  congr 2
  · omega
  · congr 1
    omega

/-- A frame is accepted when it decodes and no byte follows it; otherwise `fd` is closed. -/
theorem acceptFrame_cases (total : ℕ) (buf : List UInt8) (inbox : Inbox) :
    (∃ message, buf.length = total ∧ decodeFrame text buf = .ok message ∧
      acceptFrame text total buf fd inbox = .ok (message, fd) inbox) ∨
    ((buf.length = total → ∀ message, decodeFrame text buf ≠ .ok message) ∧
      ∃ e, acceptFrame text total buf fd inbox =
        .error e { inbox with closed := inbox.closed ++ fd.toList }) := by
  unfold acceptFrame
  by_cases hlength : buf.length = total
  · rw [if_neg (not_not.mpr hlength)]
    cases hdecode : decodeFrame text buf with
    | ok message => exact .inl ⟨message, hlength, rfl, rfl⟩
    | error e => exact .inr ⟨nofun, e, rfl⟩
  · rw [if_pos hlength]
    exact .inr ⟨fun h => absurd h hlength, _, rfl⟩

theorem recvFrame_whole (h : frameHeaderSize ≤ (ahead arrivals).length)
    (hsize : frameSize (ahead arrivals) ≤ maxFrame)
    (htotal : frameHeaderSize + frameSize (ahead arrivals) ≤ (ahead arrivals).length) :
    recvFrame text ⟨arrivals, delivered, closed⟩ =
      fromExcept (decodeFrame text
        ((ahead arrivals).take (frameHeaderSize + frameSize (ahead arrivals))))
        ⟨skip (frameHeaderSize + frameSize (ahead arrivals)) arrivals, delivered, closed⟩ := by
  have hrest : frameSize (ahead arrivals) ≤ (ahead (skip frameHeaderSize arrivals)).length := by
    rw [ahead_skip, List.length_drop]
    omega
  rw [recvFrame, bind_ok (recvExact_run h), frameSize_take (Nat.le_refl _), if_neg (by omega),
    bind_ok (recvExact_run hrest), skip_skip _ _ _ h, ahead_skip, List.take_add]

theorem recvFrame_tooLong (h : frameHeaderSize ≤ (ahead arrivals).length)
    (hbig : maxFrame < frameSize (ahead arrivals)) :
    recvFrame text ⟨arrivals, delivered, closed⟩ =
      .error tooLong ⟨skip frameHeaderSize arrivals, delivered, closed⟩ := by
  rw [recvFrame, bind_ok (recvExact_run h), frameSize_take (Nat.le_refl _), if_pos hbig]
  rfl

/-- The first read takes the descriptors, and whatever it takes of the bytes is what comes first. -/
theorem recvFrameWithOptionalFd_first (c : Chunk) (later : List Arrival) :
    recvFrameWithOptionalFd text true ⟨.chunk c :: later, delivered, closed⟩ =
      readFrame text (c.bytes.take (64 * 1024)) c.rights.head?
        ⟨putBack (c.bytes.drop (64 * 1024)) later, delivered ++ c.rights,
          closed ++ c.rights.tail⟩ := by
  have hsome : c.bytes.take (64 * 1024) ≠ [] := nofun
  have hread : recvMsg (64 * 1024) ⟨.chunk c :: later, delivered, closed⟩ =
      .ok (c.bytes.take (64 * 1024), c.rights)
        ⟨putBack (c.bytes.drop (64 * 1024)) later, delivered ++ c.rights, closed⟩ := rfl
  rw [recvFrameWithOptionalFd, if_pos rfl, bind_ok hread]
  dsimp only
  rw [if_neg hsome]
  rfl

theorem recvFrameWithOptionalFd_chunk (c : Chunk) (later : List Arrival) :
    recvFrameWithOptionalFd text true ⟨.chunk c :: later, delivered, closed⟩ =
      readFrame text (c.bytes.take (64 * 1024)) c.rights.head?
        ⟨skip (c.bytes.take (64 * 1024)).length (.chunk c :: later), delivered ++ c.rights,
          closed ++ c.rights.tail⟩ := by
  have hpos : (c.bytes.take (64 * 1024)).length ≠ 0 := nofun
  have hdrop : c.bytes.drop (c.bytes.take (64 * 1024)).length = c.bytes.drop (64 * 1024) := by
    rw [List.length_take]
    by_cases hle : 64 * 1024 ≤ c.bytes.length
    · rw [Nat.min_eq_left hle]
    · rw [Nat.min_eq_right (by omega), List.drop_length, List.drop_eq_nil_of_le (by omega)]
  rw [recvFrameWithOptionalFd_first, skip_within hpos (List.length_take_le' _ _), hdrop]

theorem ahead_taken (c : Chunk) (later : List Arrival) (limit : ℕ) :
    c.bytes.take limit ++ ahead (skip (c.bytes.take limit).length (.chunk c :: later)) =
      ahead (.chunk c :: later) := by
  rw [ahead_skip]
  exact List.prefix_iff_eq_append.mp
    ((List.take_prefix limit c.bytes).trans (List.prefix_append c.bytes (ahead later)))

end Frames

/-! ## Fragmentation -/

section Fragments
variable {text : JsonText} {message : Message} {payload : List UInt8} {chunks : List Chunk}
  {rest : List Arrival}

/-- The descriptors attached to the first byte. -/
def firstRights : List Chunk → List ℕ
  | [] => []
  | c :: _ => c.rights

theorem ahead_chunks (chunks : List Chunk) (rest : List Arrival) :
    ahead (chunks.map .chunk ++ rest) = chunks.flatMap Chunk.bytes ++ ahead rest := by
  induction chunks with
  | nil => rfl
  | cons c cs ih =>
    rw [List.map_cons, List.cons_append, ahead_chunk, ih, List.flatMap_cons, List.append_assoc]

theorem skip_chunks (chunks : List Chunk) (rest : List Arrival) :
    skip (chunks.flatMap Chunk.bytes).length (chunks.map .chunk ++ rest) = rest := by
  induction chunks with
  | nil => exact skip_zero
  | cons c cs ih =>
    rw [List.map_cons, List.cons_append, List.flatMap_cons, List.length_append,
      skip_chunk (by omega), Nat.add_sub_cancel_left, ih]

theorem decodeFrame_payload (text : JsonText) (hle : payload.length ≤ maxFrame) :
    (∃ message, text.loads payload = .ok (.dict message) ∧
      decodeFrame text (framed payload) = .ok message) ∨
    (∃ e, text.loads payload = .error (.other e) ∧
      decodeFrame text (framed payload) = .error (.other e)) ∨
    ((∀ message, text.loads payload ≠ .ok (.dict message)) ∧
      (∀ e, text.loads payload ≠ .error (.other e)) ∧
      (decodeFrame text (framed payload) = .error (.protocol "invalid JSON control frame") ∨
        decodeFrame text (framed payload) =
          .error (.protocol "control frame must be a JSON object"))) := by
  have hmax : maxFrame < 2 ^ 32 := by decide
  have hsize := frameSize_framed (show payload.length < 2 ^ 32 by omega) []
  rw [List.append_nil] at hsize
  have hlength := framed_length payload
  have hpayload : (framed payload).drop frameHeaderSize = payload :=
    List.drop_left' (frameHeader_length _)
  rw [decodeFrame, if_neg (by omega), hsize, if_neg (by omega), if_neg (by omega), hpayload]
  cases hloads : text.loads payload with
  | error e =>
    cases e with
    | invalid => exact .inr (.inr ⟨nofun, nofun, .inl rfl⟩)
    | other e => exact .inr (.inl ⟨e, rfl, rfl⟩)
  | ok value =>
    cases value with
    | dict message => exact .inl ⟨message, rfl, rfl⟩
    | leaf scalar => exact .inr (.inr ⟨nofun, nofun, .inr rfl⟩)
    | list xs => exact .inr (.inr ⟨nofun, nofun, .inr rfl⟩)

theorem decodeFrame_framed (hle : payload.length ≤ maxFrame)
    (hloads : text.loads payload = .ok (.dict message)) :
    decodeFrame text (framed payload) = .ok message := by
  obtain ⟨message', h, hdecode⟩ | ⟨e, h, -⟩ | ⟨h, -⟩ := decodeFrame_payload text hle
  · cases hloads.symm.trans h
    exact hdecode
  · cases hloads.symm.trans h
  · exact absurd hloads (h message)

/-- The stream of a frame in chunks, as the receivers see it. -/
theorem chunks_whole (hle : payload.length ≤ maxFrame)
    (hchunks : chunks.flatMap Chunk.bytes = framed payload) (rest : List Arrival) :
    ahead (chunks.map .chunk ++ rest) = framed payload ++ ahead rest ∧
      frameSize (framed payload ++ ahead rest) = payload.length ∧
      (framed payload ++ ahead rest).take (frameHeaderSize + payload.length) = framed payload ∧
      skip (frameHeaderSize + payload.length) (chunks.map .chunk ++ rest) = rest := by
  have hmax : maxFrame < 2 ^ 32 := by decide
  refine ⟨?_, frameSize_framed (by omega) _, ?_, ?_⟩
  · rw [ahead_chunks, hchunks]
  · rw [← framed_length, List.take_left]
  · rw [← framed_length, ← hchunks, skip_chunks]

theorem recvFrame_chunks {delivered closed : List ℕ} (hle : payload.length ≤ maxFrame)
    (hchunks : chunks.flatMap Chunk.bytes = framed payload) :
    recvFrame text ⟨chunks.map .chunk ++ rest, delivered, closed⟩ =
      fromExcept (decodeFrame text (framed payload)) ⟨rest, delivered, closed⟩ := by
  obtain ⟨hahead, hsize, htake, hskip⟩ := chunks_whole hle hchunks rest
  have hlength := framed_length payload
  rw [recvFrame_whole (by rw [hahead, List.length_append]; omega)
    (by rw [hahead, hsize]; exact hle) (by rw [hahead, hsize, List.length_append]; omega),
    hahead, hsize, htake, hskip]

theorem recvFrameWithOptionalFd_chunks {delivered closed : List ℕ} {hasRecvmsg : Bool}
    (hle : payload.length ≤ maxFrame) (hchunks : chunks.flatMap Chunk.bytes = framed payload)
    (hrights : hasRecvmsg = false → firstRights chunks = []) :
    recvFrameWithOptionalFd text hasRecvmsg ⟨chunks.map .chunk ++ rest, delivered, closed⟩ =
      acceptFrame text (framed payload).length (framed payload) (firstRights chunks).head?
        ⟨rest, delivered ++ firstRights chunks, closed ++ (firstRights chunks).tail⟩ := by
  cases hasRecvmsg with
  | false =>
    rw [hrights rfl, recvFrameWithOptionalFd, if_neg (by decide), bind_run,
      recvFrame_chunks hle hchunks, acceptFrame, if_neg (by simp), List.tail_nil, List.append_nil,
      List.append_nil]
    cases decodeFrame text (framed payload) with
    | ok message => rfl
    | error e =>
      have hclosed : closed ++ (none : Option ℕ).toList = closed := List.append_nil closed
      rw [← hclosed]
      simp [closeDescriptors, bind_run]
  | true =>
    obtain ⟨hahead, hsize, htake, hskip⟩ := chunks_whole hle hchunks rest
    have hlength := framed_length payload
    cases chunks with
    | nil =>
      rw [← hchunks] at hlength
      exact absurd hlength.symm (Nat.ne_of_gt (Nat.add_pos_left (by decide) _))
    | cons c cs =>
      have hc : (c.bytes.take (64 * 1024)).length ≤ frameHeaderSize + payload.length := by
        rw [← hlength, ← hchunks, List.flatMap_cons, List.length_append, List.length_take]
        omega
      have hwhole := ahead_taken c (cs.map .chunk ++ rest) (64 * 1024)
      rw [List.map_cons, List.cons_append] at hahead hskip ⊢
      rw [hahead] at hwhole
      rw [recvFrameWithOptionalFd_chunk, readFrame_whole hwhole
        (by rw [List.length_append]; omega) (by rw [hsize]; exact hle)
        (by rw [hsize, List.length_append]; omega), hsize, Nat.max_eq_left hc, htake,
        skip_skip _ _ _ (by rw [hahead, List.length_append]; omega),
        Nat.add_sub_cancel' hc, hskip, hlength]
      rfl

/-- However the bytes of a frame are cut into chunks, both receivers return its message after
exactly these bytes, the second with the descriptor attached to the first of them; and a header that
announces too much is refused by both. -/
theorem framing_independent (text : JsonText) :
    (∀ message payload, text.dumps message = .ok payload → payload.length ≤ maxFrame →
      text.loads payload = .ok (.dict message) →
      ∃ frame, encodeFrame text message = .ok frame ∧
        ∀ chunks rest delivered closed, chunks.flatMap Chunk.bytes = frame →
          recvFrame text ⟨chunks.map .chunk ++ rest, delivered, closed⟩ =
            .ok message ⟨rest, delivered, closed⟩ ∧
          ∀ hasRecvmsg : Bool, (hasRecvmsg = false → firstRights chunks = []) →
            recvFrameWithOptionalFd text hasRecvmsg
                ⟨chunks.map .chunk ++ rest, delivered, closed⟩ =
              .ok (message, (firstRights chunks).head?)
                ⟨rest, delivered ++ firstRights chunks, closed ++ (firstRights chunks).tail⟩) ∧
    ∀ arrivals delivered closed, frameHeaderSize ≤ (ahead arrivals).length →
      maxFrame < frameSize (ahead arrivals) →
      (∃ inbox, recvFrame text ⟨arrivals, delivered, closed⟩ = .error tooLong inbox) ∧
      ∀ hasRecvmsg, ∃ inbox,
        recvFrameWithOptionalFd text hasRecvmsg ⟨arrivals, delivered, closed⟩ =
          .error tooLong inbox := by
  constructor
  · intro message payload hdumps hle hloads
    refine ⟨framed payload, by rw [encodeFrame, hdumps]; exact if_neg (by omega), ?_⟩
    intro chunks rest delivered closed hchunks
    have hdecode := decodeFrame_framed hle hloads
    refine ⟨?_, fun hasRecvmsg hrights => ?_⟩
    · rw [recvFrame_chunks hle hchunks, hdecode]
      rfl
    · rw [recvFrameWithOptionalFd_chunks hle hchunks hrights, acceptFrame, if_neg (by simp),
        hdecode]
      rfl
  · intro arrivals delivered closed h hbig
    have hplain : recvFrame text ⟨arrivals, delivered, closed⟩ =
        .error tooLong ⟨skip frameHeaderSize arrivals, delivered, closed⟩ :=
      recvFrame_tooLong h hbig
    refine ⟨⟨_, hplain⟩, ?_⟩
    intro hasRecvmsg
    cases hasRecvmsg with
    | false =>
      rw [recvFrameWithOptionalFd, if_neg (by decide)]
      exact ⟨_, bind_error hplain _⟩
    | true =>
      cases arrivals with
      | nil => exact absurd h (Nat.not_succ_le_zero 3)
      | cons arrival later =>
      cases arrival with
      | failed message => exact absurd h (Nat.not_succ_le_zero 3)
      | chunk c =>
        rw [recvFrameWithOptionalFd_chunk]
        exact ⟨_, readFrame_tooLong (ahead_taken c later _) h hbig⟩

end Fragments

/-! ## A library for plain text -/

mutual
/-- Compact JSON, of values whose texts need no escapes and whose finite floats are small and
whole. -/
def plainJson : Json → Option (List UInt8)
  | .leaf .none => some (asciiBytes "null")
  | .leaf (.bool b) => some (asciiBytes (if b then "true" else "false"))
  | .leaf (.int i) => some (asciiBytes (toString i))
  | .leaf (.float .nan) => some (asciiBytes "NaN")
  | .leaf (.float (.finite negative mantissa 0)) =>
    some (asciiBytes ((if negative then "-" else "") ++ toString mantissa ++ ".0"))
  | .leaf (.str s) => some (asciiBytes ("\"" ++ s ++ "\""))
  | .leaf _ => none
  | .list xs => (plainElements xs).map fun parts =>
      asciiBytes "[" ++ (asciiBytes ",").intercalate parts ++ asciiBytes "]"
  | .dict kvs => (plainEntries kvs).map fun parts =>
      asciiBytes "\x7b" ++ (asciiBytes ",").intercalate parts ++ asciiBytes "\x7d"

def plainElements : List Json → Option (List (List UInt8))
  | [] => some []
  | x :: xs => do
    let part ← plainJson x
    let parts ← plainElements xs
    return part :: parts

def plainEntries : List (String × Json) → Option (List (List UInt8))
  | [] => some []
  | (k, v) :: kvs => do
    let part ← plainJson v
    let parts ← plainEntries kvs
    return (asciiBytes ("\"" ++ k ++ "\":") ++ part) :: parts
end

/-- A library that writes plain text and reads one message. -/
def plainText (message : Message) : JsonText where
  dumps m := match plainJson (.dict m) with
    | some payload => .ok payload
    | none => .error (.other "NotImplementedError" "")
  loads payload :=
    if plainJson (.dict message) = some payload then .ok (.dict message) else .error .invalid

theorem plainText_loads {message : Message} {payload : List UInt8}
    (h : plainJson (.dict message) = some payload) :
    (plainText message).loads payload = .ok (.dict message) := if_pos h

/-- All bytes at once. -/
def inOneChunk (bytes : List UInt8) : List Chunk :=
  match bytes with
  | [] => []
  | first :: rest => [⟨first, rest, []⟩]

theorem inOneChunk_bytes (bytes : List UInt8) :
    (inOneChunk bytes).flatMap Chunk.bytes = bytes := by
  cases bytes with
  | nil => rfl
  | cons first rest => exact List.append_nil _

/-! ## A frame in four chunks -/

/-- The frame of the empty mapping, cut inside its header too, with a descriptor. -/
def emptyChunks : List Chunk := [⟨0, [], [5]⟩, ⟨0, [0], []⟩, ⟨2, [123], []⟩, ⟨125, [], []⟩]

theorem framing_independent_empty :
    recvFrame (plainText []) ⟨emptyChunks.map .chunk ++ [.failed "timed out"], [], []⟩ =
      .ok [] ⟨[.failed "timed out"], [], []⟩ ∧
    recvFrameWithOptionalFd (plainText []) true
        ⟨emptyChunks.map .chunk ++ [.failed "timed out"], [], []⟩ =
      .ok ([], some 5) ⟨[.failed "timed out"], [5], []⟩ ∧
    ∃ inbox, recvFrame (plainText []) ⟨[.chunk ⟨255, [255, 255, 255], []⟩], [], []⟩ =
      .error tooLong inbox := by
  obtain ⟨hframes, hrefused⟩ := framing_independent (plainText [])
  obtain ⟨frame, hframe, hchunks⟩ := hframes [] [123, 125] rfl (by decide) rfl
  have hframed : encodeFrame (plainText []) [] = .ok (framed [123, 125]) := rfl
  cases hframed.symm.trans hframe
  obtain ⟨hplain, hwith⟩ := hchunks emptyChunks [.failed "timed out"] [] [] (by decide)
  refine ⟨hplain, hwith true nofun, ?_⟩
  exact (hrefused [.chunk ⟨255, [255, 255, 255], []⟩] [] [] (by decide) (by decide)).1

end Npb.Mstore
