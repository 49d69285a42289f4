import Npb.Mstore.Creating
import Npb.Mstore.Operations

/-! # Received descriptors

What a round of the server and an operation of a client do with the descriptors that `recvmsg`
delivers to them: which they close (`Ledger`), and when these are all of them, each once. -/

namespace Npb.Mstore
set_option autoImplicit false
open Effects

/-! ## Delivered and closed -/

/-- Every descriptor delivered in between was closed in between as often as it was delivered; the
kernel delivers no number that is open already. -/
def ClosesOnce (before after : Inbox) : Prop :=
  ∀ fd ∈ after.delivered.drop before.delivered.length,
    (after.closed.drop before.closed.length).count fd =
      (after.delivered.drop before.delivered.length).count fd

/-- In between, exactly these were delivered and these closed. -/
structure Ledger (before after : Inbox) (arrived closings : List ℕ) : Prop where
  delivered : after.delivered = before.delivered ++ arrived
  closed : after.closed = before.closed ++ closings

section Ledgers
variable {before between after : Inbox} {arrived arrived' closings closings' rights : List ℕ}

theorem Ledger.refl (inbox : Inbox) : Ledger inbox inbox [] [] :=
  ⟨(List.append_nil _).symm, (List.append_nil _).symm⟩

theorem Ledger.trans (h : Ledger before between arrived closings)
    (h' : Ledger between after arrived' closings') :
    Ledger before after (arrived ++ arrived') (closings ++ closings') := by
  constructor
  · rw [h'.delivered, h.delivered, List.append_assoc]
  · rw [h'.closed, h.closed, List.append_assoc]

theorem Ledger.reading (inbox : Inbox) (later : List Arrival) :
    Ledger inbox { inbox with arrivals := later } [] [] :=
  ⟨(List.append_nil _).symm, (List.append_nil _).symm⟩

theorem Ledger.later (h : Ledger before between arrived closings)
    (h' : Ledger between after [] closings') :
    Ledger before after arrived (closings ++ closings') := by
  have hboth := h.trans h'
  rw [List.append_nil] at hboth
  exact hboth

theorem Ledger.closesOnce_iff (h : Ledger before after arrived closings) :
    ClosesOnce before after ↔ ∀ fd ∈ arrived, closings.count fd = arrived.count fd := by
  unfold ClosesOnce
  rw [h.delivered, h.closed, List.drop_left, List.drop_left]

theorem Ledger.closesOnce_nil (h : Ledger before after [] closings) : ClosesOnce before after :=
  h.closesOnce_iff.mpr nofun

/-- The first of the descriptors is closed last, and none is forgotten. -/
theorem count_whole (rights : List ℕ) (fd : ℕ) :
    (rights.tail ++ rights.head?.toList).count fd = rights.count fd := by
  cases rights with
  | nil => rfl
  | cons first extra =>
    show (extra ++ [first]).count fd = (first :: extra).count fd
    exact (List.perm_append_singleton first extra).count_eq fd

/-- Without the first of them only an empty list is closed. -/
theorem count_tail_iff (rights : List ℕ) :
    (∀ fd ∈ rights, rights.tail.count fd = rights.count fd) ↔ rights = [] := by
  constructor
  · intro h
    cases rights with
    | nil => rfl
    | cons first extra =>
      have hfirst := h first (List.mem_cons_self ..)
      rw [List.tail_cons, List.count_cons_self] at hfirst
      omega
  · intro h
    rw [h]
    exact nofun

theorem Ledger.whole (h : Ledger before after rights (rights.tail ++ rights.head?.toList)) :
    ClosesOnce before after :=
  h.closesOnce_iff.mpr fun fd _ => count_whole rights fd

theorem Ledger.leaks_iff (h : Ledger before after rights rights.tail) :
    ClosesOnce before after ↔ rights = [] :=
  h.closesOnce_iff.trans (count_tail_iff rights)

end Ledgers

/-! ## Reading without descriptors -/

/-- Neither delivers nor closes a descriptor. -/
def NoRights {α : Type} (x : Receive α) : Prop :=
  ∀ inbox, Ledger inbox (finalState (x inbox)) [] []

section NoRights
variable {α β : Type}

theorem NoRights.bind {x : Receive α} {f : α → Receive β} (hx : NoRights x)
    (hf : ∀ a, NoRights (f a)) : NoRights (x >>= f) := by
  intro inbox
  apply bind_keeps (R := fun before after => Ledger before after [] [])
  · intro s₁ s₂ s₃ h h'
    exact h.trans h'
  · exact hx inbox
  · intro a s' _
    exact hf a s'

theorem noRights_pure (a : α) : NoRights (pure a : Receive α) := Ledger.refl

theorem noRights_throw (e : WireError) : NoRights (throw e : Receive α) := Ledger.refl

theorem noRights_fromExcept (x : Except WireError α) : NoRights (fromExcept x : Receive α) := by
  intro inbox
  rw [finalState_fromExcept]
  exact Ledger.refl inbox

theorem noRights_recv (limit : ℕ) : NoRights (recv limit) := by
  intro inbox
  obtain ⟨arrivals, delivered, closed⟩ := inbox
  cases arrivals with
  | nil => exact Ledger.refl _
  | cons arrival later =>
    cases arrival with
    | chunk c => exact Ledger.reading _ _
    | failed message => exact Ledger.reading _ later

theorem noRights_recvLoop (rounds remaining : ℕ) : NoRights (recvLoop rounds remaining) := by
  induction rounds generalizing remaining with
  | zero => exact noRights_pure []
  | succ rounds ih =>
    unfold recvLoop
    by_cases hremaining : remaining = 0
    · rw [if_pos hremaining]
      exact noRights_pure []
    · rw [if_neg hremaining]
      apply (noRights_recv remaining).bind
      intro chunk
      by_cases hchunk : chunk = []
      · rw [if_pos hchunk]
        exact noRights_throw _
      · rw [if_neg hchunk]
        exact (ih _).bind fun chunks => noRights_pure _

theorem noRights_recvFrame (text : JsonText) : NoRights (recvFrame text) := by
  apply (noRights_recvLoop frameHeaderSize frameHeaderSize).bind
  intro header
  by_cases hbig : maxFrame < frameSize header
  · rw [if_pos hbig]
    exact noRights_throw _
  · rw [if_neg hbig]
    exact (noRights_recvLoop _ _).bind fun payload => noRights_fromExcept _

theorem noRights_recvPipeFrame (text : JsonText) : NoRights (recvPipeFrame text) := by
  intro inbox
  obtain ⟨arrivals, delivered, closed⟩ := inbox
  cases arrivals with
  | nil => exact Ledger.refl _
  | cons arrival later =>
    cases arrival with
    | failed message => exact Ledger.reading _ later
    | chunk c =>
      unfold recvPipeFrame
      dsimp only
      by_cases hlong : maxFrame + frameHeaderSize < c.bytes.length
      · rw [if_pos hlong]
        exact Ledger.reading _ later
      · rw [if_neg hlong, finalState_fromExcept]
        exact Ledger.reading _ later

end NoRights

/-! ## Reading a frame with its descriptors -/

/-- The descriptors that the first read delivers; only `recvmsg` takes any. -/
def taken (transport : Transport) (arrivals : List Arrival) : List ℕ :=
  match transport, arrivals with
  | .socket true, .chunk c :: _ => c.rights
  | _, _ => []

/-- How many bytes the first read takes. -/
def firstRead : List Arrival → ℕ
  | .chunk c :: _ => (c.bytes.take (64 * 1024)).length
  | _ => 0

/-- The first frame of the bytes. -/
def wholeFrame (bytes : List UInt8) : List UInt8 :=
  bytes.take (frameHeaderSize + frameSize bytes)

/-- The frame that arrives is one that `recv_frame_with_optional_fd` accepts: the first read goes
not beyond it, and it is this message. -/
structure Accepts (text : JsonText) (arrivals : List Arrival) (message : Message) : Prop where
  within : firstRead arrivals ≤ frameHeaderSize + frameSize (ahead arrivals)
  decodes : decodeFrame text (wholeFrame (ahead arrivals)) = .ok message

/-- What becomes of the descriptors of a frame: it is given up in the middle and all but the first
are closed, it is refused and they all are closed, or the first of them is returned with it. -/
inductive Delivery {ε S α : Type} (inboxOf : S → Inbox) (before : Inbox) (rights : List ℕ)
    (whole : Prop) (accepts : α → Prop) : EStateM.Result ε S (α × Option ℕ) → Prop
  | broken (e : ε) (s : S) (hends : ¬ whole)
    (hledger : Ledger before (inboxOf s) rights rights.tail) :
    Delivery inboxOf before rights whole accepts (.error e s)
  | refused (e : ε) (s : S) (hwhole : rights ≠ [] → whole)
    (hnever : rights ≠ [] → ∀ a, ¬ accepts a)
    (hledger : Ledger before (inboxOf s) rights (rights.tail ++ rights.head?.toList)) :
    Delivery inboxOf before rights whole accepts (.error e s)
  | accepted (a : α) (s : S) (hwhole : rights ≠ [] → whole) (haccepts : rights ≠ [] → accepts a)
    (hledger : Ledger before (inboxOf s) rights rights.tail) :
    Delivery inboxOf before rights whole accepts (.ok (a, rights.head?) s)

/-- The deliveries of `conn.recv()`. -/
abbrev Receives (text : JsonText) (inbox : Inbox) (rights : List ℕ) :
    EStateM.Result WireError Inbox (Message × Option ℕ) → Prop :=
  Delivery id inbox rights (Complete (ahead inbox.arrivals)) (Accepts text inbox.arrivals)

section Receiving
variable {text : JsonText} {arrivals : List Arrival} {buf bytes : List UInt8} {message : Message}

theorem receives_noRights {x : Receive Message} (hx : NoRights x) (inbox : Inbox) :
    Receives text inbox [] ((x >>= fun message => pure (message, none)) inbox) := by
  have hledger := hx inbox
  rw [bind_run]
  cases hrun : x inbox with
  | ok message after =>
    rw [hrun] at hledger
    exact .accepted message after (absurd rfl) (absurd rfl) hledger
  | error e after =>
    rw [hrun] at hledger
    exact .refused e after (absurd rfl) (absurd rfl) hledger

theorem decodeFrame_tooLong (hbig : maxFrame < frameSize bytes)
    (h : frameHeaderSize ≤ bytes.length) : ¬ decodeFrame text (wholeFrame bytes) = .ok message := by
  have hsize : frameSize (wholeFrame bytes) = frameSize bytes :=
    frameSize_take (Nat.le_add_right _ _)
  have hlength : ¬ (wholeFrame bytes).length < frameHeaderSize := by
    rw [wholeFrame, List.length_take]
    omega
  rw [decodeFrame, if_neg hlength, hsize, if_pos hbig]
  intro h
  cases h

theorem receives_whole (c : Chunk) (later : List Arrival) (delivered closed : List ℕ)
    (h : frameHeaderSize ≤ (ahead (.chunk c :: later)).length)
    (hsize : frameSize (ahead (.chunk c :: later)) ≤ maxFrame)
    (htotal : frameHeaderSize + frameSize (ahead (.chunk c :: later)) ≤
      (ahead (.chunk c :: later)).length) :
    Receives text ⟨.chunk c :: later, delivered, closed⟩ c.rights
      (recvFrameWithOptionalFd text true ⟨.chunk c :: later, delivered, closed⟩) := by
  have hwhole : Complete (ahead (.chunk c :: later)) := ⟨h, .inr htotal⟩
  have htaken := ahead_taken c later (64 * 1024)
  have hfirst : (c.bytes.take (64 * 1024)).length ≤ (ahead (.chunk c :: later)).length := by
    rw [← htaken, List.length_append]
    omega
  rw [recvFrameWithOptionalFd_chunk, readFrame_whole htaken h hsize htotal]
  generalize hbytes : ahead (.chunk c :: later) = bytes at h hsize htotal hfirst hwhole ⊢
  have hbuf : (bytes.take (max (frameHeaderSize + frameSize bytes)
      (c.bytes.take (64 * 1024)).length)).length =
      max (frameHeaderSize + frameSize bytes) (c.bytes.take (64 * 1024)).length := by
    rw [List.length_take, Nat.min_eq_left (Nat.max_le.mpr ⟨htotal, hfirst⟩)]
  obtain ⟨message, hlength, hdecode, hrun⟩ | ⟨hnever, e, hrun⟩ :=
    acceptFrame_cases (frameHeaderSize + frameSize bytes)
      (bytes.take (max (frameHeaderSize + frameSize bytes) (c.bytes.take (64 * 1024)).length))
      ⟨skip (frameHeaderSize + frameSize bytes - (c.bytes.take (64 * 1024)).length)
        (skip (c.bytes.take (64 * 1024)).length (.chunk c :: later)), delivered ++ c.rights,
        closed ++ c.rights.tail⟩
  · rw [hrun]
    have hmax : max (frameHeaderSize + frameSize bytes) (c.bytes.take (64 * 1024)).length =
        frameHeaderSize + frameSize bytes := hbuf.symm.trans hlength
    refine .accepted message _ (fun _ => ?_) (fun _ => ⟨?_, ?_⟩) ⟨rfl, rfl⟩
    · exact hbytes ▸ hwhole
    · show (c.bytes.take (64 * 1024)).length ≤ _
      rw [hbytes, ← hmax]
      exact Nat.le_max_right _ _
    · rw [hbytes, wholeFrame, ← hdecode, hmax]
  · rw [hrun]
    refine .refused e _ (fun _ => hbytes ▸ hwhole) (fun _ message haccepts => ?_)
      ⟨rfl, List.append_assoc ..⟩
    have hwithin : (c.bytes.take (64 * 1024)).length ≤ frameHeaderSize + frameSize bytes :=
      hbytes ▸ haccepts.within
    have hdecodes := haccepts.decodes
    rw [hbytes, wholeFrame] at hdecodes
    rw [hbuf, Nat.max_eq_left hwithin] at hnever
    exact hnever rfl message hdecodes

theorem connRecv_receives (text : JsonText) (transport : Transport) (inbox : Inbox) :
    Receives text inbox (taken transport inbox.arrivals) (connRecv text transport inbox) := by
  obtain ⟨arrivals, delivered, closed⟩ := inbox
  cases transport with
  | pipe => exact receives_noRights (noRights_recvPipeFrame text) _
  | socket hasRecvmsg =>
  cases hasRecvmsg with
  | false => exact receives_noRights (noRights_recvFrame text) _
  | true =>
  cases arrivals with
  | nil => exact .refused _ _ (absurd rfl) (absurd rfl) (Ledger.refl _)
  | cons arrival later =>
  cases arrival with
  | failed message =>
    exact .refused _ _ (absurd rfl) (absurd rfl) (Ledger.reading _ later)
  | chunk c =>
    show Receives text _ c.rights
      (recvFrameWithOptionalFd text true ⟨.chunk c :: later, delivered, closed⟩)
    have htaken := ahead_taken c later (64 * 1024)
    by_cases hcomplete : Complete (ahead (.chunk c :: later))
    · have hheader := hcomplete.1
      by_cases hbig : maxFrame < frameSize (ahead (.chunk c :: later))
      · rw [recvFrameWithOptionalFd_chunk, readFrame_tooLong htaken hheader hbig]
        exact .refused _ _ (fun _ => hcomplete)
          (fun _ message haccepts => decodeFrame_tooLong hbig hheader haccepts.decodes)
          ⟨rfl, List.append_assoc ..⟩
      · exact receives_whole c later delivered closed hheader (Nat.le_of_not_lt hbig)
          (hcomplete.2.resolve_left hbig)
    · obtain ⟨e, after, -, hrun⟩ := readFrame_unfinished
        htaken hcomplete
      rw [recvFrameWithOptionalFd_chunk, hrun]
      exact .broken e _ hcomplete ⟨rfl, rfl⟩

end Receiving

/-! ## A round of the server -/

section Rounds
variable {service : Service} {w : Worker} {after : Inbox}

theorem send_inbox (service : Service) (message : Message) (fd : Option ℕ) (w : Worker) :
    (finalState (send service message fd w)).inbox = w.inbox := by
  cases hframe : wireFrame service message fd with
  | error e => rw [send_unwritten hframe, finalState_error]
  | ok frame =>
    cases hwrites : service.writes w.attempts with
    | none => rw [send_written hframe hwrites, finalState_ok]
    | some text => rw [send_broken hframe hwrites, finalState_error]

theorem report_inbox (service : Service) (exc : Failure) (w : Worker) :
    (finalState (report service exc w)).inbox = w.inbox := by
  have hsend := send_inbox service (errorPayload service exc) none w
  cases hrun : send service (errorPayload service exc) none w with
  | ok a w' =>
    rw [hrun] at hsend
    rw [report, bind_ok (attempt_ok hrun)]
    exact hsend
  | error e w' =>
    rw [hrun] at hsend
    rw [report, bind_ok (attempt_error hrun)]
    exact hsend

/-- The request is answered without reading on; what is closed then is the handler's. -/
theorem serveRequest_ledger (service : Service) (request : Message) (w : Worker) :
    ∃ closings, Ledger w.inbox (finalState (serveRequest service request w)).inbox [] closings := by
  cases hhandle : handle service.env service.endpoint request w.server with
  | ok result s =>
    obtain ⟨answers, attempts, hstate, -⟩ := serveRequest_state hhandle
    rw [hstate]
    exact ⟨_, (List.append_nil _).symm, rfl⟩
  | error exc s =>
    obtain ⟨answers, attempts, hstate, -⟩ := answerError_state service exc { w with server := s }
    rw [serveRequest_failed hhandle, hstate]
    exact ⟨[], Ledger.refl _⟩

theorem serveOnce_failed {e : WireError} (h : receiveFrame service w.inbox = .error e after) :
    (finalState (serveOnce service w)).inbox = after := by
  rw [serveOnce, bind_ok (attempt_error (onInbox_error h))]
  cases e with
  | eof => rfl
  | os text => rfl
  | protocol text => exact report_inbox service _ { w with inbox := after }
  | other e => rfl

/-- A descriptor that a client has sent is closed before anything is answered. -/
theorem serveOnce_descriptor {message : Message} {fd : ℕ}
    (h : receiveFrame service w.inbox = .ok (message, some fd) after) :
    (finalState (serveOnce service w)).inbox = { after with closed := after.closed ++ [fd] } := by
  rw [serveOnce, bind_ok (attempt_ok (onInbox_ok h))]
  exact report_inbox service _
    { w with inbox := { after with closed := after.closed ++ [fd] } }

/-- A round leaks a descriptor when the frame it came with is not complete. -/
theorem serveOnce_closes (service : Service) (w : Worker) :
    ClosesOnce w.inbox (finalState (serveOnce service w)).inbox ↔
      (taken service.transport w.inbox.arrivals ≠ [] → Complete (ahead w.inbox.arrivals)) := by
  have hreceives := connRecv_receives service.text service.transport w.inbox
  generalize hrun : connRecv service.text service.transport w.inbox = result at hreceives
  generalize taken service.transport w.inbox.arrivals = rights at hreceives ⊢
  cases hreceives with
  | broken e after hends hledger =>
    have hleaks : ClosesOnce w.inbox after ↔ rights = [] := hledger.leaks_iff
    rw [serveOnce_failed hrun, hleaks]
    constructor
    · intro hnone hsome
      exact absurd hnone hsome
    · intro hwhole
      by_contra hsome
      exact hends (hwhole hsome)
  | refused e after hwhole hnever hledger =>
    rw [serveOnce_failed hrun]
    exact ⟨fun _ => hwhole, fun _ => hledger.whole⟩
  | accepted message after hwhole haccepts hledger =>
    refine ⟨fun _ => hwhole, fun _ => ?_⟩
    cases rights with
    | nil =>
      obtain ⟨closings, hserved⟩ :=
        serveRequest_ledger service message { w with inbox := after }
      rw [serveOnce_request hrun]
      exact (hledger.trans hserved).closesOnce_nil
    | cons fd extra =>
      rw [serveOnce_descriptor hrun]
      have hclosed : Ledger after { after with closed := after.closed ++ [fd] } [] [fd] :=
        ⟨(List.append_nil _).symm, rfl⟩
      exact (hledger.later hclosed).whole

end Rounds

/-! ## Operations of a client -/

section Operations
open Operations
variable {host : Host} {op : Operation} {s : Session}

/-- The request goes out. -/
structure Sends (host : Host) (op : Operation) : Prop where
  connected : host.connect = none
  sent : sendMessage host op.message = .ok ()

/-- The frame that arrives is an ok response with this result. -/
def Responds (host : Host) (arrivals : List Arrival) (result : Message) : Prop :=
  ∃ response, Accepts host.text arrivals response ∧ truthy (getKey response "ok") = true ∧
    getKey response "result" = .dict result

theorem Accepts.unique {text : JsonText} {arrivals : List Arrival} {message message' : Message}
    (h : Accepts text arrivals message) (h' : Accepts text arrivals message') :
    message' = message := by
  cases h.decodes.symm.trans h'.decodes
  rfl

theorem Responds.unique {arrivals : List Arrival} {result result' : Message}
    (h : Responds host arrivals result) (h' : Responds host arrivals result') :
    result' = result := by
  obtain ⟨response, haccepts, -, hresult⟩ := h
  obtain ⟨response', haccepts', -, hresult'⟩ := h'
  cases haccepts.unique haccepts'
  cases hresult.symm.trans hresult'
  rfl

theorem request_unsent (s : Session) (h : ¬ Sends host op) :
    ∃ e s', request host op s = .error e s' ∧ s'.inbox = s.inbox := by
  cases hconnect : host.connect with
  | some e =>
    have hfails : ensureConnection host s = .error (.python e) s := by
      rw [ensureConnection, hconnect]
    exact ⟨_, s, bind_error hfails _, rfl⟩
  | none =>
    have hheld : ensureConnection host s = .ok () { s with held := true } := by
      rw [ensureConnection, hconnect]
    cases hsent : sendMessage host op.message with
    | ok u => exact absurd ⟨hconnect, hsent⟩ h
    | error e =>
      refine ⟨requestError op e, ⟨s.inbox, true && !e.caught⟩, ?_, rfl⟩
      rw [request, bind_ok hheld, bind_run, guarded, bind_run, hsent]
      rfl

/-- The response to a request that went out, with what `conn.recv()` made of its descriptors. -/
theorem request_sent (s : Session) (h : Sends host op) :
    Delivery Session.inbox s.inbox (taken host.transport s.inbox.arrivals)
      (Complete (ahead s.inbox.arrivals)) (Responds host s.inbox.arrivals)
      (request host op s) := by
  have hreceives := connRecv_receives host.text host.transport s.inbox
  have hheld : ensureConnection host s = .ok () { s with held := true } := by
    rw [ensureConnection, h.connected]
  have hguarded : guarded op (fromExcept (sendMessage host op.message) >>= fun _ =>
      connRecv host.text host.transport) { s with held := true } =
      match connRecv host.text host.transport s.inbox with
      | .ok a inbox => .ok a ⟨inbox, true⟩
      | .error e inbox => .error (requestError op e) ⟨inbox, true && !e.caught⟩ := by
    rw [h.sent, fromExcept_ok_bind, guarded]
    cases connRecv host.text host.transport s.inbox with
    | ok a inbox => rfl
    | error e inbox => rfl
  generalize taken host.transport s.inbox.arrivals = rights at hreceives ⊢
  rw [request, bind_ok hheld, bind_run, hguarded]
  generalize connRecv host.text host.transport s.inbox = result at hreceives ⊢
  cases hreceives with
  | broken e after hends hledger => exact .broken _ _ hends hledger
  | refused e after hwhole hnever hledger =>
    refine .refused _ _ hwhole (fun hsome result hresponds => ?_) hledger
    obtain ⟨response, haccepts, -⟩ := hresponds
    exact hnever hsome response haccepts
  | accepted response after hwhole haccepts hledger =>
    have hclose : Ledger after { after with closed := after.closed ++ rights.head?.toList } []
        rights.head?.toList := ⟨(List.append_nil _).symm, rfl⟩
    dsimp only
    by_cases hok : truthy (getKey response "ok") = false
    · rw [if_pos hok]
      refine .refused _ _ hwhole (fun hsome result hresponds => ?_) (hledger.later hclose)
      obtain ⟨response', haccepts', htrue, -⟩ := hresponds
      cases (haccepts hsome).unique haccepts'
      exact absurd htrue (by rw [hok]; decide)
    · rw [if_neg hok]
      have hnodict : (∀ result, getKey response "result" ≠ .dict result) →
          Delivery Session.inbox s.inbox rights (Complete (ahead s.inbox.arrivals))
            (Responds host s.inbox.arrivals)
            ((closeFd rights.head? >>= fun _ =>
              (throw (.protocol "server response is missing a result object") :
                Requesting (Message × Option ℕ))) ⟨after, true⟩) := by
        intro hno
        refine .refused _ _ hwhole (fun hsome result hresponds => ?_) (hledger.later hclose)
        obtain ⟨response', haccepts', -, hresult⟩ := hresponds
        cases (haccepts hsome).unique haccepts'
        exact hno result hresult
      cases hresult : getKey response "result" with
      | dict result =>
        exact .accepted result _ hwhole
          (fun hsome => ⟨response, haccepts hsome, Bool.eq_true_of_not_eq_false hok, hresult⟩)
          hledger
      | leaf scalar =>
        apply hnodict
        intro result h
        cases hresult.symm.trans h
      | list xs =>
        apply hnodict
        intro result h
        cases hresult.symm.trans h

/-! ### Mappings -/

/-- `_open_mapping` comes to one of its exits that close the descriptor. -/
def Mappable (host : Host) (mapping : Json) : Prop :=
  ∃ entries size, mapping = .dict entries ∧
    (pyItem entries "size" >>= pyInt host.intOfStr) = .ok size ∧
    isText "windows_named" (getKey entries "backend") = false

/-- What a method does with the descriptor of its response: it closes it if and only if the result
is as the method uses it. -/
def Closes {α : Type} (f : Message × Option ℕ → Requesting α) (uses : Message → Prop) : Prop :=
  ∀ result fd s, (uses result ∧ Ledger s.inbox (finalState (f (result, fd) s)).inbox [] fd.toList) ∨
    (¬ uses result ∧ Ledger s.inbox (finalState (f (result, fd) s)).inbox [] [])

theorem finalState_compute {α : Type} (x : Except PyError α) (s : Session) :
    finalState (compute x s) = s := by
  cases x <;> rfl

theorem closeFd_ledger (fd : Option ℕ) (s : Session) :
    Ledger s.inbox (finalState (closeFd fd s)).inbox [] fd.toList :=
  ⟨(List.append_nil _).symm, rfl⟩

theorem not_mappable {mapping : Json} (h : ∀ entries, mapping ≠ .dict entries) :
    ¬ Mappable host mapping := by
  rintro ⟨entries, size, hentries, -⟩
  exact h entries hentries

theorem compute_ok {α : Type} (a : α) : compute (.ok a) = (pure a : Requesting α) := rfl

theorem openMapping_ledger (mapping : Json) (fd : Option ℕ) (access : Access) (s : Session) :
    (Mappable host mapping ∧
      Ledger s.inbox (finalState (openMapping host mapping fd access s)).inbox [] fd.toList) ∨
    (¬ Mappable host mapping ∧
      Ledger s.inbox (finalState (openMapping host mapping fd access s)).inbox [] []) := by
  cases mapping with
  | leaf scalar => exact .inr ⟨not_mappable nofun, Ledger.refl _⟩
  | list xs => exact .inr ⟨not_mappable nofun, Ledger.refl _⟩
  | dict entries =>
    unfold openMapping
    dsimp only
    cases hsize : pyItem entries "size" >>= pyInt host.intOfStr with
    | error e =>
      refine .inr ⟨?_, Ledger.refl s.inbox⟩
      rintro ⟨entries', size, h, hsize', -⟩
      cases h
      cases hsize.symm.trans hsize'
    | ok size =>
      rw [compute_ok, pure_bind]
      by_cases hmemfd : isText "memfd" (getKey entries "backend") = true
      · have hother : isText "windows_named" (getKey entries "backend") = false := by
          rw [isText_eq hmemfd]
          rfl
        refine .inl ⟨⟨entries, size, rfl, hsize, hother⟩, ?_⟩
        rw [if_pos hmemfd]
        cases fd with
        | none => exact Ledger.refl _
        | some number =>
          dsimp only
          rw [bind_run]
          show Ledger s.inbox (finalState (compute (host.mmap number size access) _)).inbox [] _
          rw [finalState_compute]
          exact closeFd_ledger (some number) s
      rw [if_neg hmemfd]
      by_cases hnamed : isText "windows_named" (getKey entries "backend") = true
      · refine .inr ⟨?_, ?_⟩
        · rintro ⟨entries', size', h, -, hother⟩
          cases h
          exact absurd hnamed (by rw [hother]; decide)
        · rw [if_pos hnamed]
          by_cases hnt : host.nt = false
          · rw [if_pos hnt]
            exact Ledger.refl _
          rw [if_neg hnt]
          by_cases hname : truthy (getKey entries "name") = false
          · rw [if_pos hname]
            exact Ledger.refl _
          · rw [if_neg hname, finalState_compute]
            exact Ledger.refl _
      · rw [if_neg hnamed]
        exact .inl ⟨⟨entries, size, rfl, hsize, Bool.eq_false_of_not_eq_true hnamed⟩,
          closeFd_ledger fd s⟩

/-! ### Methods -/

theorem finalState_bind_of {α β : Type} (x : Requesting α) {f : α → Requesting β} (s : Session)
    (hf : ∀ a s, finalState (f a s) = s) : finalState ((x >>= f) s) = finalState (x s) := by
  rw [bind_run]
  cases x s with
  | ok a s' => exact hf a s'
  | error e s' => rfl

/-- What a method that closes a descriptor does about the one that its request may bring. -/
theorem Closes.request {α : Type} {f : Message × Option ℕ → Requesting α} {uses : Message → Prop}
    (hf : Closes f uses) (op : Operation) (s : Session) :
    ClosesOnce s.inbox (finalState ((Operations.request host op >>= f) s)).inbox ↔
      (Sends host op → taken host.transport s.inbox.arrivals ≠ [] →
        Complete (ahead s.inbox.arrivals) ∧
          ∀ result, Responds host s.inbox.arrivals result → uses result) := by
  by_cases hsends : Sends host op
  · have hdelivery := request_sent s hsends
    generalize hrun : Operations.request host op s = result at hdelivery
    generalize taken host.transport s.inbox.arrivals = rights at hdelivery ⊢
    cases hdelivery with
    | broken e s' hends hledger =>
      rw [bind_error hrun, finalState_error, hledger.leaks_iff]
      constructor
      · intro hnone _ hsome
        exact absurd hnone hsome
      · intro h
        by_contra hsome
        exact hends (h hsends hsome).1
    | refused e s' hwhole hnever hledger =>
      rw [bind_error hrun, finalState_error]
      exact ⟨fun _ _ hsome => ⟨hwhole hsome, fun result h => absurd h (hnever hsome result)⟩,
        fun _ => hledger.whole⟩
    | accepted result s' hwhole hresponds hledger =>
      rw [bind_ok hrun]
      obtain ⟨huses, hclosed⟩ | ⟨huses, hclosed⟩ := hf result rights.head? s'
      · refine ⟨fun _ _ hsome => ⟨hwhole hsome, fun result' h => ?_⟩,
          fun _ => (hledger.later hclosed).whole⟩
        rw [(hresponds hsome).unique h]
        exact huses
      · have hleaves := hledger.later hclosed
        rw [List.append_nil] at hleaves
        rw [hleaves.leaks_iff]
        constructor
        · intro hnone _ hsome
          exact absurd hnone hsome
        · intro h
          by_contra hsome
          exact huses ((h hsends hsome).2 result (hresponds hsome))
  · obtain ⟨e, s', hrun, hinbox⟩ := request_unsent s hsends
    rw [bind_error hrun, finalState_error, hinbox]
    exact ⟨fun _ h => absurd h hsends, fun _ => (Ledger.refl s.inbox).closesOnce_nil⟩

theorem plainRequest_closes {α : Type} (host : Host) (op : Operation)
    (finish : Message → Except RequestError α) (s : Session) :
    ClosesOnce s.inbox (finalState (plainRequest host op finish s)).inbox ↔
      (Sends host op → taken host.transport s.inbox.arrivals ≠ [] →
        Complete (ahead s.inbox.arrivals) ∧
          ∀ result, Responds host s.inbox.arrivals result → True) := by
  have hcloses : Closes (fun p => closeFd p.2 >>= fun _ => fromExcept (finish p.1))
      fun _ => True := by
    intro result fd s
    refine .inl ⟨trivial, ?_⟩
    rw [finalState_bind_of _ _ fun _ s => finalState_fromExcept _ s]
    exact closeFd_ledger fd s
  exact hcloses.request op s

/-- The result says what to map, in a way that `_open_mapping` understands. -/
def HasMapping (host : Host) (result : Message) : Prop :=
  ∃ mapping, pyItem result "mapping" = .ok mapping ∧ Mappable host mapping

theorem finalState_info {α : Type} (result : Message) (f : Json → α) (s : Session) :
    finalState ((compute (pyItem result "object") >>= fun info => pure (f info)) s) = s := by
  rw [finalState_bind_of _ _ fun _ _ => rfl, finalState_compute]

theorem mapped_ledger {α : Type} (result : Message) (fd : Option ℕ) (access : Access)
    {f : ℕ → Requesting α} (hf : ∀ mapped s, finalState (f mapped s) = s) (s : Session) :
    (HasMapping host result ∧ Ledger s.inbox (finalState ((compute (pyItem result "mapping") >>=
      fun mapping => openMapping host mapping fd access >>= f) s)).inbox [] fd.toList) ∨
    (¬ HasMapping host result ∧ Ledger s.inbox (finalState ((compute (pyItem result "mapping") >>=
      fun mapping => openMapping host mapping fd access >>= f) s)).inbox [] []) := by
  cases hmapping : pyItem result "mapping" with
  | error e =>
    refine .inr ⟨?_, Ledger.refl s.inbox⟩
    rintro ⟨mapping, h, -⟩
    cases hmapping.symm.trans h
  | ok mapping =>
    rw [compute_ok, pure_bind, finalState_bind_of _ _ hf]
    obtain ⟨hmappable, hledger⟩ | ⟨hnot, hledger⟩ :=
      openMapping_ledger mapping fd access s
    · exact .inl ⟨⟨mapping, hmapping, hmappable⟩, hledger⟩
    · refine .inr ⟨?_, hledger⟩
      rintro ⟨mapping', h, hmappable⟩
      cases hmapping.symm.trans h
      exact hnot hmappable

/-- The result is one with which the method closes a descriptor: any, unless the method maps it. -/
def Uses (host : Host) : Operation → Message → Prop
  | .create .., result =>
    (∃ token, (pyItem result "token" >>= pyStr host.strOf) = .ok token) ∧ HasMapping host result
  | .openObject .., result => HasMapping host result
  | _, _ => True

theorem closes_create (size : ℤ) (shape dtype : Json) (order : String) (metadata : Message) :
    Closes (fun p => compute (pyItem p.1 "token" >>= pyStr host.strOf) >>= fun token =>
      compute (pyItem p.1 "mapping") >>= fun mapping =>
        openMapping host mapping p.2 .write >>= fun mapped =>
          compute (pyItem p.1 "object") >>= fun info =>
            return SharedObject.mk info token .write mapped)
      (Uses host (.create size shape dtype order metadata)) := by
  intro result fd s
  dsimp only
  cases htoken : pyItem result "token" >>= pyStr host.strOf with
  | error e =>
    refine .inr ⟨?_, Ledger.refl s.inbox⟩
    rintro ⟨⟨token, h⟩, -⟩
    cases htoken.symm.trans h
  | ok token =>
    rw [compute_ok, pure_bind]
    obtain ⟨hmapping, hledger⟩ | ⟨hnot, hledger⟩ := mapped_ledger result fd .write
      (fun mapped s => finalState_info result (SharedObject.mk · token .write mapped) s) s
    · exact .inl ⟨⟨⟨token, htoken⟩, hmapping⟩, hledger⟩
    · exact .inr ⟨fun h => hnot h.2, hledger⟩

theorem closes_open (objectId token : String) (access : Access) :
    Closes (fun p => compute (pyItem p.1 "mapping") >>= fun mapping =>
        openMapping host mapping p.2 access >>= fun mapped =>
          compute (pyItem p.1 "object") >>= fun info =>
            return SharedObject.mk info token access mapped)
      (Uses host (.openObject objectId token access)) := by
  intro result fd s
  exact mapped_ledger result fd access
    (fun mapped s => finalState_info result (SharedObject.mk · token access mapped) s) s

/-- An operation leaks a descriptor when the frame it came with is not complete, or when its
response is ok and no mapping can be made of it. -/
theorem runOperation_closes (host : Host) (op : Operation) (s : Session) :
    ClosesOnce s.inbox (finalState (runOperation host op s)).inbox ↔
      (Sends host op → taken host.transport s.inbox.arrivals ≠ [] →
        Complete (ahead s.inbox.arrivals) ∧
          ∀ result, Responds host s.inbox.arrivals result → Uses host op result) := by
  cases op with
  | ping =>
    unfold runOperation
    dsimp only
    rw [finalState_bind_of _ _ fun _ _ => rfl]
    exact plainRequest_closes host .ping _ s
  | create size shape dtype order metadata =>
    unfold runOperation
    dsimp only
    rw [finalState_bind_of _ _ fun _ _ => rfl]
    exact (closes_create size shape dtype order metadata).request _ s
  | openObject objectId token access =>
    unfold runOperation
    dsimp only
    rw [finalState_bind_of _ _ fun _ _ => rfl]
    exact (closes_open objectId token access).request _ s
  | issueToken objectId issuerToken permissions expiresIn =>
    unfold runOperation
    dsimp only
    rw [finalState_bind_of _ _ fun _ _ => rfl]
    exact plainRequest_closes host (.issueToken objectId issuerToken permissions expiresIn) _ s
  | revokeToken objectId issuerToken targetToken =>
    unfold runOperation
    exact plainRequest_closes host (.revokeToken objectId issuerToken targetToken) _ s
  | info objectId token =>
    unfold runOperation
    dsimp only
    rw [finalState_bind_of _ _ fun _ _ => rfl]
    exact plainRequest_closes host (.info objectId token) _ s
  | delete objectId token =>
    unfold runOperation
    exact plainRequest_closes host (.delete objectId token) _ s

end Operations

/-! ## Rounds and operations -/

/-- A round of the server closes each descriptor that it receives exactly once if and only if the
frame is complete; an operation of a client does so if and only if, moreover, an ok response that
is to be mapped says what to map. -/
theorem received_closed_iff (service : Service) (w : Worker) (host : Operations.Host)
    (op : Operations.Operation) (s : Operations.Session) :
    (ClosesOnce w.inbox (finalState (serveOnce service w)).inbox ↔
      (taken service.transport w.inbox.arrivals ≠ [] → Complete (ahead w.inbox.arrivals))) ∧
    (ClosesOnce s.inbox (finalState (Operations.runOperation host op s)).inbox ↔
      (Sends host op → taken host.transport s.inbox.arrivals ≠ [] →
        Complete (ahead s.inbox.arrivals) ∧
          ∀ result, Responds host s.inbox.arrivals result → Uses host op result)) :=
  ⟨serveOnce_closes service w, runOperation_closes host op s⟩

/-! ## A truncated frame -/

/-- Descriptor 7 comes with a header that announces five bytes, and the stream ends. -/
def truncatedWorker : Worker :=
  ⟨⟨[.chunk ⟨0, [0, 0, 5], [7]⟩], [], []⟩, .init, [], 0⟩

theorem truncated_frame_leaks :
    ∃ w', serveOnce (createService (.ok 9)) truncatedWorker = .ok .leave w' ∧
      w'.inbox.delivered = [7] ∧ w'.inbox.closed = [] ∧
      ¬ ClosesOnce truncatedWorker.inbox w'.inbox := by
  refine ⟨_, rfl, rfl, rfl, ?_⟩
  intro h
  exact absurd (h 7 (by decide)) (by decide)

end Npb.Mstore
