import Npb.Mstore.Shapes

/-! # Calls over a connection

A method of the client sends a frame to a worker of the server, which handles the request and sends
a frame back. Whatever the frames are cut into on the way, the method returns what the registry
returns, and raises what the registry raises, as far as exceptions have names on the connection
(`remote_run`). -/

namespace Npb.Mstore.Operations
set_option autoImplicit false
open Effects

/-! ## Frames on their way -/

/-- A whole frame is next on the connection, with a descriptor that has this number now. -/
def Carries (transport : Transport) (arrivals : List Arrival) (frame : List UInt8)
    (number : Option ℕ) (rest : List Arrival) : Prop :=
  ∃ chunks, arrivals = chunks.map .chunk ++ rest ∧ chunks.flatMap Chunk.bytes = frame ∧
    firstRights chunks = number.toList ∧ (transport = .pipe → ∃ c, chunks = [c])

/-- The JSON library reads back what it has written. -/
def Survives (text : JsonText) (message : Message) : Prop :=
  ∀ payload, text.dumps message = .ok payload → text.loads payload = .ok (.dict message)

section Frames
variable {text : JsonText} {transport : Transport} {message : Message} {frame : List UInt8}
  {number : Option ℕ} {rest : List Arrival} {inbox : Inbox}

theorem encodeFrame_payload (h : encodeFrame text message = .ok frame) :
    ∃ payload, text.dumps message = .ok payload ∧ payload.length ≤ maxFrame ∧
      frame = framed payload := by
  unfold encodeFrame at h
  split at h
  · cases h
  · next payload hdumps =>
    split at h
    · cases h
    · next hlength =>
      cases h
      exact ⟨payload, hdumps, Nat.not_lt.mp hlength, rfl⟩

/-- The frame of a message is received whole, as that message. -/
theorem connRecv_carries (hframe : encodeFrame text message = .ok frame)
    (hsurvives : Survives text message)
    (hcarries : Carries transport inbox.arrivals frame number rest)
    (hplain : transport ≠ .socket true → number = none) :
    connRecv text transport inbox = .ok (message, number)
      { inbox with arrivals := rest, delivered := inbox.delivered ++ number.toList } := by
  obtain ⟨payload, hdumps, hle, rfl⟩ := encodeFrame_payload hframe
  have hdecode := decodeFrame_framed hle (hsurvives payload hdumps)
  obtain ⟨arrivals, delivered, closed⟩ := inbox
  obtain ⟨chunks, rfl, hbytes, hrights, hsole⟩ := hcarries
  unfold connRecv
  cases transport with
  | socket hasRecvmsg =>
    have hnone : hasRecvmsg = false → firstRights chunks = [] := by
      rintro rfl
      rw [hrights, hplain (by simp)]
      rfl
    have hhead : (firstRights chunks).head? = number := by
      rw [hrights]
      cases number <;> rfl
    have htail : (firstRights chunks).tail = [] := by
      rw [hrights]
      cases number <;> rfl
    dsimp only
    rw [recvFrameWithOptionalFd_chunks hle hbytes hnone, hhead, htail, acceptFrame,
      if_neg (not_not.mpr rfl), hdecode, hrights, List.append_nil]
    rfl
  | pipe =>
    obtain ⟨c, rfl⟩ := hsole rfl
    have hc : c.bytes = framed payload := (List.append_nil c.bytes).symm.trans hbytes
    have hnumber := hplain (by simp)
    subst hnumber
    have hlength := framed_length payload
    have hread : recvPipeFrame text ⟨[c].map .chunk ++ rest, delivered, closed⟩ =
        .ok message ⟨rest, delivered, closed⟩ := by
      show (if maxFrame + frameHeaderSize < c.bytes.length then _ else _) = _
      rw [hc, if_neg (by omega), hdecode]
      rfl
    dsimp only
    rw [bind_ok hread]
    simp

end Frames

/-! ## Errors on their way -/

/-- What is left of an exception of the server: its class, if it is one of mstore, and its text. -/
def report (repr : Json → String) (exc : Failure) : RequestError :=
  match exc with
  | .mstore cls _ => .remote (some cls) (.leaf (.str (exc.text repr)))
  | .python _ => .remote none (.leaf (.str (exc.text repr)))

theorem errorType_code (cls : ErrorClass) : errorType cls.code = some cls := by
  cases cls <;> decide

/-- The client raises the class that the server has raised. -/
theorem errorOf_errorPayload (service : Service) (exc : Failure) :
    errorOf (errorPayload service exc) = report service.env.repr exc := by
  cases exc with
  | mstore cls message =>
    have hcode := errorType_code cls
    show RequestError.remote (errorType cls.code) _ = RequestError.remote (some cls) _
    rw [hcode]
    rfl
  | python e => rfl

/-! ## One call -/

/-- Both ends of a connection on which nothing fails, with one JSON library. -/
structure Connected (host : Host) (service : Service) : Prop where
  text : service.text = host.text
  transport : service.transport = host.transport
  connects : host.connect = none
  sends : ∀ frame, host.write frame = none
  writes : ∀ n, service.writes n = none

/-- A request goes to a worker, which answers it, and the answer comes back. How the frames are cut
is left open, and so is the number that a descriptor has at the client. -/
structure RemoteCall (host : Host) (service : Service) (op : Operation) (w : Worker)
    (session : Session) (number : Option ℕ) (w' : Worker) : Prop where
  connected : Connected host service
  request : Survives host.text op.message
  sent : ∃ frame rest, encodeFrame host.text op.message = .ok frame ∧
    Offers service.transport w.inbox.arrivals frame rest
  served : ∃ turn, serveOnce service w = .ok turn w'
  answered : ∃ answer rest, w'.sent = w.sent ++ [answer] ∧ Survives host.text answer.message ∧
    Carries host.transport session.inbox.arrivals answer.frame number rest ∧
    number.isSome = answer.fd.isSome
  /-- No answer is too long for a frame. -/
  fits : ∀ result fd s, handle service.env service.endpoint op.message w.server =
    .ok (result, fd) s → ∃ frame, wireFrame service (okPayload result) fd = .ok frame

section Calls
variable {host : Host} {service : Service} {op : Operation} {w w' : Worker}
  {session : Session} {number fd : Option ℕ} {response result : Message} {frame : List UInt8}
  {rest : List Arrival} {exc : Failure} {s : State}

theorem wireFrame_ok (h : wireFrame service response fd = .ok frame) :
    encodeFrame service.text response = .ok frame ∧
      (service.transport ≠ .socket true → fd = none) := by
  unfold wireFrame at h
  cases htransport : service.transport with
  | pipe =>
    rw [htransport] at h
    dsimp only at h
    split at h
    · cases h
    · next hfd => exact ⟨h, fun _ => not_not.mp hfd⟩
  | socket hasSendmsg =>
    rw [htransport] at h
    obtain ⟨frame', hframe, h⟩ := except_bind_eq_ok.mp h
    split at h
    · cases h
    · next hfd =>
      cases h
      refine ⟨hframe, fun hplain => ?_⟩
      by_contra hsome
      refine hfd ⟨hsome, ?_⟩
      cases hasSendmsg with
      | false => rfl
      | true => exact absurd rfl hplain

/-- What arrives of a response, once the request has been sent. -/
def Session.after (session : Session) (number : Option ℕ) (rest : List Arrival) : Session :=
  ⟨{ session.inbox with arrivals := rest, delivered := session.inbox.delivered ++ number.toList },
    true⟩

/-- The response that arrives is the one that `_request` looks at. -/
theorem guarded_response (h : Connected host service) {sent : List UInt8}
    (hsent : encodeFrame host.text op.message = .ok sent)
    (hframe : encodeFrame host.text response = .ok frame) (hsurvives : Survives host.text response)
    (hcarries : Carries host.transport session.inbox.arrivals frame number rest)
    (hplain : host.transport ≠ .socket true → number = none) :
    (do ensureConnection host
        guarded op do
          fromExcept (sendMessage host op.message)
          connRecv host.text host.transport) session =
      .ok (response, number) (session.after number rest) := by
  have hconnect : ensureConnection host session = .ok () { session with held := true } := by
    rw [ensureConnection, h.connects]
  have hsend : sendMessage host op.message = .ok () := by
    rw [sendMessage, hsent, except_ok_bind, h.sends]
  rw [bind_ok hconnect, guarded, hsend, fromExcept_ok_bind,
    connRecv_carries hframe hsurvives hcarries hplain]
  rfl

theorem request_result (h : Connected host service) {sent : List UInt8}
    (hsent : encodeFrame host.text op.message = .ok sent)
    (hframe : encodeFrame host.text (okPayload result) = .ok frame)
    (hsurvives : Survives host.text (okPayload result))
    (hcarries : Carries host.transport session.inbox.arrivals frame number rest)
    (hplain : host.transport ≠ .socket true → number = none) :
    Operations.request host op session = .ok (result, number) (session.after number rest) := by
  have hread := guarded_response h hsent hframe hsurvives hcarries hplain
  rw [Operations.request, ← bind_assoc, bind_ok hread]
  rfl

theorem request_error (h : Connected host service) {sent : List UInt8}
    (hsent : encodeFrame host.text op.message = .ok sent)
    (hframe : encodeFrame host.text (errorPayload service exc) = .ok frame)
    (hsurvives : Survives host.text (errorPayload service exc))
    (hcarries : Carries host.transport session.inbox.arrivals frame number rest)
    (hplain : host.transport ≠ .socket true → number = none) :
    ∃ session', Operations.request host op session =
      .error (report service.env.repr exc) session' := by
  have hread := guarded_response h hsent hframe hsurvives hcarries hplain
  have hok : truthy (getKey (errorPayload service exc) "ok") = false := by
    cases exc <;> rfl
  rw [Operations.request, ← bind_assoc, bind_ok hread]
  dsimp only
  rw [if_pos hok, errorOf_errorPayload]
  exact ⟨_, rfl⟩

/-- The worker has read the request and nothing else. -/
theorem RemoteCall.serves (h : RemoteCall host service op w session number w') :
    ∃ inbox turn, serveRequest service op.message { w with inbox := inbox } = .ok turn w' := by
  obtain ⟨frame, rest, hframe, hoffers⟩ := h.sent
  obtain ⟨turn, hserved⟩ := h.served
  obtain ⟨payload, hdumps, hle, rfl⟩ := encodeFrame_payload hframe
  have hdecode : decodeFrame service.text (framed payload) = .ok op.message := by
    rw [h.connected.text]
    exact decodeFrame_framed hle (h.request payload hdumps)
  have hread : receiveFrame service w.inbox =
      .ok (op.message, none) { w.inbox with arrivals := rest } := by
    rw [receiveFrame_offered hle hoffers, hdecode]
    rfl
  rw [serveOnce_request hread] at hserved
  exact ⟨_, turn, hserved⟩

/-- A request that the handler refuses raises its exception at the client. -/
theorem RemoteCall.failed (h : RemoteCall host service op w session number w')
    (hhandle : handle service.env service.endpoint op.message w.server = .error exc s) :
    w'.server = s ∧ ∃ session', Operations.request host op session =
      .error (report service.env.repr exc) session' := by
  obtain ⟨inbox, turn, hserved⟩ := h.serves
  rw [serveRequest_failed (w := { w with inbox := inbox }) hhandle] at hserved
  by_cases hsendable : Sendable service exc
  · obtain ⟨frame, hframe⟩ := hsendable
    rw [answerError_written hframe (h.connected.writes _)] at hserved
    cases hserved
    obtain ⟨answer, rest, hlast, hsurvives, hcarries, hnumber⟩ := h.answered
    cases List.append_cancel_left hlast
    obtain ⟨sent, -, hsent, -⟩ := h.sent
    refine ⟨rfl, request_error h.connected hsent (h.connected.text ▸ hframe) hsurvives hcarries ?_⟩
    exact fun _ => by simpa using hnumber
  · obtain ⟨e, hraised⟩ := answerError_unsendable (w := { w with inbox := inbox, server := s })
      hsendable
    rw [hraised] at hserved
    cases hserved

/-- A request that the handler accepts returns its result at the client. -/
theorem RemoteCall.handled (h : RemoteCall host service op w session number w')
    (hhandle : handle service.env service.endpoint op.message w.server = .ok (result, fd) s) :
    w'.server = s ∧ number.isSome = fd.isSome ∧
      ∃ session', Operations.request host op session = .ok (result, number) session' := by
  obtain ⟨inbox, turn, hserved⟩ := h.serves
  rw [serveRequest_handled (w := { w with inbox := inbox }) hhandle] at hserved
  obtain ⟨frame, hframe⟩ := h.fits result fd s hhandle
  rw [answer_written hframe (h.connected.writes _)] at hserved
  cases hserved
  obtain ⟨answer, rest, hlast, hsurvives, hcarries, hnumber⟩ := h.answered
  cases List.append_cancel_left hlast
  obtain ⟨sent, -, hsent, -⟩ := h.sent
  obtain ⟨hencoded, hplain⟩ := wireFrame_ok hframe
  refine ⟨rfl, hnumber, _, request_result h.connected hsent (h.connected.text ▸ hencoded)
    hsurvives hcarries fun hsocket => ?_⟩
  have hfd := hplain (h.connected.transport ▸ hsocket)
  subst hfd
  simpa using hnumber

end Calls

/-! ## Direct calls -/

/-- What the registry gives for a method; a mapping is what the client attaches to. -/
inductive Given where
  | pong
  | created (obj : ObjectRecord) (token : String) (mapping : Json)
  | opened (obj : ObjectRecord) (token : String) (access : Access) (mapping : Json)
  | informed (obj : ObjectRecord) (token : TokenRecord)
  | issued (token : String)
  | done (flag : String)

section Direct
variable (env : Environment) (endpoint : String)

/-- The server refuses an empty object id before the registry sees it. -/
def named {α : Type} (objectId : String) (x : Call α) : Call α := do
  fromExcept (raiseIf (objectId = "") (invalidRequest "object_id is required"))
  x

/-- The calls of the registry that a method of the client stands for. -/
def direct : Operation → Call (Given × Option ℕ)
  | .ping => return (.pong, none)
  | .create size shape dtype order metadata => do
    let (obj, token) ← createObject env size shape dtype (.leaf (.str order)) (.dict metadata)
    let (mapping, fd) ← regionMapping env obj.region "write"
    return (.created obj token mapping, fd)
  | .openObject objectId token access => named objectId do
    let (obj, _) ← validate env objectId token (.leaf (.str access.mode))
    let (mapping, fd) ← regionMapping env obj.region access.mode
    return (.opened obj token access mapping, fd)
  | .issueToken objectId issuerToken permissions expiresIn => named objectId do
    let token ← Mstore.issueToken env objectId issuerToken permissions expiresIn
    return (.issued token, none)
  | .revokeToken objectId issuerToken targetToken => named objectId do
    fromExcept (raiseIf (targetToken = "") (invalidRequest "target_token is required"))
    Mstore.revokeToken env objectId issuerToken targetToken
    return (.done "revoked", none)
  | .info objectId token => named objectId do
    let (obj, record) ← validate env objectId token (.leaf (.str "info"))
    return (.informed obj record, none)
  | .delete objectId token => named objectId do
    deleteObject env objectId token
    return (.done "deleted", none)

/-- The result object of the answer. -/
def Given.reply : Given → Message
  | pong => [("pong", .leaf (.bool true)), ("endpoint", .leaf (.str endpoint))]
  | created obj token mapping =>
    [("object", obj.toPublic env), ("token", .leaf (.str token)), ("mapping", mapping)]
  | opened obj _ _ mapping => [("object", obj.toPublic env), ("mapping", mapping)]
  | informed obj token => (infoReply env obj token).1
  | issued token => [("token", .leaf (.str token))]
  | done flag => [(flag, .leaf (.bool true))]

theorem orElse_dict (metadata : Message) : orElse (.dict metadata) (.dict []) = .dict metadata := by
  cases metadata <;> rfl

theorem handle_object {op : Operation} {objectId token : String}
    (hargs : requestArgs op.message = .ok op.args)
    (hid : getKey op.args "object_id" = .leaf (.str objectId))
    (htoken : getKey op.args "token" = .leaf (.str token))
    (hping : isText "ping" (getKey op.message "op") = false)
    (hcreate : isText "create" (getKey op.message "op") = false) :
    handle env endpoint op.message = named objectId
      (if isText "open" (getKey op.message "op") then handleOpen env op.args objectId token
        else if isText "info" (getKey op.message "op") then handleInfo env objectId token
        else if isText "grant" (getKey op.message "op") then handleGrant env op.args objectId token
        else if isText "revoke" (getKey op.message "op") then
          handleRevoke env op.args objectId token
        else if isText "delete" (getKey op.message "op") then handleDelete env objectId token
        else raise (invalidRequest ("unknown operation: " ++
          env.repr (getKey op.message "op")))) := by
  rw [handle, hargs, fromExcept_ok_bind, if_neg (by simp [hping]), if_neg (by simp [hcreate]),
    textArg_str hid, fromExcept_ok_bind, textArg_str htoken, fromExcept_ok_bind]
  rfl

theorem named_bind {α β : Type} (objectId : String) (x : Call α) (f : α → Call β) :
    named objectId x >>= f = named objectId (x >>= f) := by
  rw [named, named, bind_assoc]

theorem handle_message (op : Operation) : handle env endpoint op.message =
    direct env op >>= fun given => pure (given.1.reply env endpoint, given.2) := by
  cases op with
  | ping => rfl
  | create size shape dtype order metadata =>
    have hcreate : handle env endpoint
        (Operation.create size shape dtype order metadata).message =
        handleCreate env (Operation.create size shape dtype order metadata).args := rfl
    have hsize : sizeArg env (Operation.create size shape dtype order metadata).args =
        .ok size := rfl
    rw [hcreate, handleCreate, hsize, fromExcept_ok_bind]
    show (do
      let (obj, token) ← createObject env size shape dtype (.leaf (.str order))
        (orElse (.dict metadata) (.dict []))
      createReply env obj token) = _
    rw [orElse_dict]
    simp [direct, createReply, Given.reply]
  | openObject objectId token access =>
    rw [handle_object env endpoint rfl rfl rfl rfl rfl, direct, named_bind]
    congr 1
    obtain ⟨required, hmode, hname⟩ : ∃ required, openRequired
        (Operation.openObject objectId token access).args = some required ∧
        required.name = access.mode := by
      cases access <;> exact ⟨_, rfl, rfl⟩
    show handleOpen env _ objectId token = _
    rw [handleOpen, hmode, bind_assoc]
    dsimp only
    rw [hname]
    refine bind_congr fun found => ?_
    obtain ⟨obj, record⟩ := found
    rw [openReply, bind_assoc]
    rfl
  | issueToken objectId issuerToken permissions expiresIn =>
    rw [handle_object env endpoint rfl rfl rfl rfl rfl, direct, named_bind]
    congr 1
    rw [bind_assoc]
    rfl
  | revokeToken objectId issuerToken targetToken =>
    have htarget : textArg env (Operation.revokeToken objectId issuerToken targetToken).args
        "target_token" = .ok targetToken := textArg_str rfl
    rw [handle_object env endpoint rfl rfl rfl rfl rfl, direct, named_bind]
    congr 1
    show handleRevoke env _ objectId issuerToken = _
    rw [handleRevoke, htarget, fromExcept_ok_bind]
    simp only [bind_assoc]
    rfl
  | info objectId token =>
    rw [handle_object env endpoint rfl rfl rfl rfl rfl, direct, named_bind]
    congr 1
    rw [bind_assoc]
    rfl
  | delete objectId token =>
    rw [handle_object env endpoint rfl rfl rfl rfl rfl, direct, named_bind]
    congr 1
    rw [bind_assoc]
    rfl

end Direct

/-! ## Methods -/

/-- What a method returns. -/
inductive Value where
  | message (result : Message)
  | object (obj : SharedObject)
  | token (text : String)
  | done

/-- What a computation of the client returned or raised. -/
def ending {α : Type} : EStateM.Result RequestError Session α → Except RequestError α
  | .ok a _ => .ok a
  | .error e _ => .error e

section Methods
variable (host : Host) (env : Environment) (endpoint : String)

/-- Any of the methods. -/
def method : Operation → Requesting Value
  | .ping => Value.message <$> ping host
  | .create size shape dtype order metadata =>
    Value.object <$> create host size shape dtype order metadata
  | .openObject objectId token access => Value.object <$> openObject host objectId token access
  | .issueToken objectId issuerToken permissions expiresIn =>
    Value.token <$> issueToken host objectId issuerToken permissions expiresIn
  | .revokeToken objectId issuerToken targetToken =>
    (fun _ => Value.done) <$> revokeToken host objectId issuerToken targetToken
  | .info objectId token => Value.message <$> info host objectId token
  | .delete objectId token => (fun _ => Value.done) <$> delete host objectId token

/-- The address at which a client attaches to a mapping, with this descriptor. -/
def attached (mapping : Json) (number : Option ℕ) (access : Access) : Except RequestError ℕ :=
  ending (openMapping host mapping number access ⟨⟨[], [], []⟩, true⟩)

/-- What a client makes of what the registry gives. -/
def Given.value (number : Option ℕ) : Given → Except RequestError Value
  | created obj token mapping => do
    return .object ⟨obj.toPublic env, token, .write, ← attached host mapping number .write⟩
  | opened obj token access mapping => do
    return .object ⟨obj.toPublic env, token, access, ← attached host mapping number access⟩
  | issued token => .ok (.token token)
  | done _ => .ok .done
  | given => .ok (.message (given.reply env endpoint))

/-- What the client is to return or raise. -/
def shown (number : Option ℕ) : Except Failure (Given × Option ℕ) → Except RequestError Value
  | .ok (given, _) => given.value host env endpoint number
  | .error exc => .error (report env.repr exc)

end Methods

section Endings
variable {α β : Type}

/-- The session makes no difference to what a computation returns or raises. -/
def Blind (x : Requesting α) : Prop := ∀ s s', ending (x s) = ending (x s')

theorem ending_bind (x : Requesting α) {f : α → Requesting β} (hf : ∀ a, Blind (f a))
    (s s' : Session) :
    ending ((x >>= f) s) = ending (x s) >>= fun a => ending (f a s') := by
  rw [bind_run]
  cases x s with
  | ok a s₁ => exact hf a s₁ s'
  | error e s₁ => rfl

theorem blind_pure (a : α) : Blind (pure a) := fun _ _ => rfl

theorem blind_throw (e : RequestError) : Blind (throw e : Requesting α) := fun _ _ => rfl

theorem blind_compute (x : Except PyError α) : Blind (compute x) := by
  cases x with
  | ok a => exact blind_pure a
  | error e => exact blind_throw _

theorem blind_closeFd (fd : Option ℕ) : Blind (closeFd fd) := fun _ _ => rfl

theorem blind_bind {x : Requesting α} {f : α → Requesting β} (hx : Blind x)
    (hf : ∀ a, Blind (f a)) : Blind (x >>= f) := by
  intro s s'
  rw [ending_bind x hf s s, ending_bind x hf s' s, hx s s']

theorem blind_openMapping (host : Host) (mapping : Json) (fd : Option ℕ) (access : Access) :
    Blind (openMapping host mapping fd access) := by
  unfold openMapping
  split
  · refine blind_bind (blind_compute _) fun size => ?_
    split
    · cases fd with
      | none => exact blind_throw _
      | some number => exact blind_bind (blind_closeFd _) fun _ => blind_compute _
    · split
      · split
        · exact blind_throw _
        · dsimp only
          split
          · exact blind_throw _
          · exact blind_compute _
      · exact blind_bind (blind_closeFd _) fun _ => blind_throw _
  · exact blind_throw _

/-- Whatever has been received before, the client attaches to the same mapping. -/
theorem ending_openMapping (host : Host) (mapping : Json) (fd : Option ℕ) (access : Access)
    (s : Session) :
    ending (openMapping host mapping fd access s) = attached host mapping fd access :=
  blind_openMapping host mapping fd access s _

end Endings

section Answers
variable {host : Host} {env : Environment} {endpoint : String} {op : Operation} {given : Given}
  {session session' : Session} {number fd : Option ℕ} {s s' : State}

/-- What the registry can give for the calls of a method. -/
inductive Suits : Operation → Given → Prop
  | ping : Suits .ping .pong
  | create {size : ℤ} {shape dtype : Json} {order : String} {metadata : Message}
    (obj : ObjectRecord) (token : String) (mapping : Json) :
    Suits (.create size shape dtype order metadata) (.created obj token mapping)
  | openObject {objectId token : String} {access : Access} (obj : ObjectRecord)
    (mapping : Json) :
    Suits (.openObject objectId token access) (.opened obj token access mapping)
  | issueToken {objectId issuerToken : String} {permissions expiresIn : Json} (token : String) :
    Suits (.issueToken objectId issuerToken permissions expiresIn) (.issued token)
  | revokeToken {objectId issuerToken targetToken : String} :
    Suits (.revokeToken objectId issuerToken targetToken) (.done "revoked")
  | info {objectId token : String} (obj : ObjectRecord) (record : TokenRecord) :
    Suits (.info objectId token) (.informed obj record)
  | delete {objectId token : String} : Suits (.delete objectId token) (.done "deleted")

theorem named_ok {α : Type} {objectId : String} {x : Call α} {a : α}
    (h : named objectId x s = .ok a s') : x s = .ok a s' := by
  rw [named, raiseIf_run_eq_ok] at h
  exact h.2

theorem direct_suits (h : direct env op s = .ok (given, fd) s') : Suits op given := by
  cases op with
  | ping =>
    cases h
    exact .ping
  | create size shape dtype order metadata =>
    obtain ⟨⟨obj, token⟩, s₁, -, h⟩ := bind_eq_ok.mp h
    obtain ⟨⟨mapping, fd⟩, s₂, -, h⟩ := bind_eq_ok.mp h
    cases h
    exact .create obj token mapping
  | openObject objectId token access =>
    obtain ⟨⟨obj, record⟩, s₁, -, h⟩ := bind_eq_ok.mp (named_ok h)
    obtain ⟨⟨mapping, fd⟩, s₂, -, h⟩ := bind_eq_ok.mp h
    cases h
    exact .openObject obj mapping
  | issueToken objectId issuerToken permissions expiresIn =>
    obtain ⟨token, s₁, -, h⟩ := bind_eq_ok.mp (named_ok h)
    cases h
    exact .issueToken token
  | revokeToken objectId issuerToken targetToken =>
    obtain ⟨-, h⟩ := raiseIf_run_eq_ok.mp (named_ok h)
    obtain ⟨-, s₁, -, h⟩ := bind_eq_ok.mp h
    cases h
    exact .revokeToken
  | info objectId token =>
    obtain ⟨⟨obj, record⟩, s₁, -, h⟩ := bind_eq_ok.mp (named_ok h)
    cases h
    exact .info obj record
  | delete objectId token =>
    obtain ⟨-, s₁, -, h⟩ := bind_eq_ok.mp (named_ok h)
    cases h
    exact .delete

theorem ending_map {α β : Type} (f : α → β) (x : Requesting α) (s : Session) :
    ending ((f <$> x) s) = f <$> ending (x s) := by
  rw [map_run]
  cases x s <;> rfl

theorem plainRequest_answered {α : Type} {result : Message}
    (h : Operations.request host op session = .ok (result, number) session')
    (finish : Message → Except RequestError α) :
    ending (plainRequest host op finish session) = finish result := by
  rw [plainRequest, bind_ok h]
  show ending ((closeFd number >>= fun _ => fromExcept (finish result)) session') = _
  rw [bind_run]
  cases finish result <;> simp [closeFd, ending]

theorem openMapping_shared (mapping : Json) (access : Access) (make : ℕ → SharedObject)
    (s : Session) :
    ending ((openMapping host mapping number access >>= fun mapped =>
      (pure (make mapped) : Requesting SharedObject)) s) =
      make <$> attached host mapping number access := by
  rw [ending_bind _ (fun _ => blind_pure _) s s, ending_openMapping]
  rfl

theorem method_answered (hsuits : Suits op given)
    (h : Operations.request host op session =
      .ok (given.reply env endpoint, number) session') :
    ending (method host op session) = given.value host env endpoint number := by
  cases hsuits with
  | ping =>
    rw [method, ending_map, ping, plainRequest_answered h]
    rfl
  | create obj token mapping =>
    rw [method, ending_map, create, bind_ok h]
    show Value.object <$> ending ((openMapping host mapping number .write >>= fun mapped =>
      (pure ⟨obj.toPublic env, token, .write, mapped⟩ : Requesting SharedObject)) session') = _
    rw [openMapping_shared, Given.value]
    cases attached host mapping number .write <;> rfl
  | @openObject objectId token access obj mapping =>
    rw [method, ending_map, openObject, bind_ok h]
    show Value.object <$> ending ((openMapping host mapping number access >>= fun mapped =>
      (pure ⟨obj.toPublic env, token, access, mapped⟩ : Requesting SharedObject)) session') = _
    rw [openMapping_shared, Given.value]
    cases attached host mapping number access <;> rfl
  | issueToken token =>
    rw [method, ending_map, issueToken, plainRequest_answered h]
    rfl
  | revokeToken =>
    rw [method, ending_map, revokeToken, plainRequest_answered h]
    rfl
  | info obj record =>
    rw [method, ending_map, info, plainRequest_answered h]
    rfl
  | delete =>
    rw [method, ending_map, delete, plainRequest_answered h]
    rfl

theorem method_refused {e : RequestError}
    (h : Operations.request host op session = .error e session') :
    ending (method host op session) = .error e := by
  have hplain : ∀ {α : Type} (finish : Message → Except RequestError α),
      ending (plainRequest host op finish session) = .error e := fun finish => by
    rw [plainRequest, bind_error h]
    rfl
  cases op with
  | ping =>
    rw [method, ending_map, ping, hplain]
    rfl
  | create size shape dtype order metadata =>
    rw [method, ending_map, create, bind_error h]
    rfl
  | openObject objectId token access =>
    rw [method, ending_map, openObject, bind_error h]
    rfl
  | issueToken objectId issuerToken permissions expiresIn =>
    rw [method, ending_map, issueToken, hplain]
    rfl
  | revokeToken objectId issuerToken targetToken =>
    rw [method, ending_map, revokeToken, hplain]
    rfl
  | info objectId token =>
    rw [method, ending_map, info, hplain]
    rfl
  | delete objectId token =>
    rw [method, ending_map, delete, hplain]
    rfl

end Answers

/-! ## Runs -/

/-- What happens at a server: a call of a method over some connection, with the number that the
descriptor of the answer has at the client, or any other request. -/
inductive Happening where
  | call (host : Host) (op : Operation) (number : Option ℕ) (outcome : Except RequestError Value)
  | other (x : Exchange)

section Runs
variable (env : Environment) (endpoint : String)

/-- A call goes over a connection of its own, to a worker of its own. -/
inductive Remote : State → Happening → State → Prop
  | call {host : Host} {service : Service} {op : Operation} {w w' : Worker} {session : Session}
    {number : Option ℕ} (henv : service.env = env) (hendpoint : service.endpoint = endpoint)
    (h : RemoteCall host service op w session number w') :
    Remote w.server (.call host op number (ending (method host op session))) w'.server
  | other {s s' : State} {x : Exchange} (h : Serve env endpoint s x s') : Remote s (.other x) s'

/-- A call is made of the registry itself; a descriptor of its has some number at the client. -/
inductive Direct : State → Happening → State → Prop
  | call {s : State} {host : Host} {op : Operation} {number : Option ℕ}
    (hnumber : ∀ given fd s', direct env op s = .ok (given, fd) s' →
      number.isSome = fd.isSome) :
    Direct s (.call host op number
      (shown host env endpoint number (outcomeOf (direct env op s)))) (finalState (direct env op s))
  | other {s s' : State} {x : Exchange} (h : Serve env endpoint s x s') : Direct s (.other x) s'

variable {env endpoint} {host : Host} {service : Service} {op : Operation} {w w' : Worker}
  {session : Session} {number : Option ℕ} {s s' : State}

/-- One call over a connection has the effect and the outcome of the call of the registry. -/
theorem RemoteCall.step (h : RemoteCall host service op w session number w') :
    Direct service.env service.endpoint w.server
      (.call host op number (ending (method host op session))) w'.server := by
  have hhandle := congrFun (handle_message service.env service.endpoint op) w.server
  cases hdirect : direct service.env op w.server with
  | error exc s =>
    rw [bind_error hdirect] at hhandle
    obtain ⟨hserver, session', hrequest⟩ := h.failed hhandle
    have hstep : Direct service.env service.endpoint w.server (.call host op number _) _ :=
      .call fun given fd s' hok => by
        rw [hdirect] at hok
        cases hok
    rw [hdirect] at hstep
    rw [method_refused hrequest, hserver]
    exact hstep
  | ok given s =>
    obtain ⟨given, fd⟩ := given
    rw [bind_ok hdirect] at hhandle
    obtain ⟨hserver, hnumber, session', hrequest⟩ := h.handled hhandle
    have hstep : Direct service.env service.endpoint w.server (.call host op number _) _ :=
      .call fun given' fd' s' hok => by
        rw [hdirect] at hok
        cases hok
        exact hnumber
    rw [hdirect] at hstep
    rw [method_answered (direct_suits hdirect) hrequest, hserver]
    exact hstep

/-- Whatever the clients of a server call over their connections, they could have called the
registry itself, in the same order and with the same outcomes. -/
theorem remote_run {happenings : List Happening}
    (hrun : Run (Remote env endpoint) s happenings s') :
    Run (Direct env endpoint) s happenings s' :=
  hrun.mono fun s e s' hstep => by
    cases hstep with
    | call henv hendpoint h =>
      subst henv hendpoint
      exact h.step
    | other h => exact .other h

end Runs

/-! ## A call whose frames are not cut -/

section Samples

/-- A frame that arrives at once, with a descriptor of this number. -/
def delivery (frame : List UInt8) (number : Option ℕ) : List Arrival :=
  match frame with
  | [] => []
  | first :: rest => [.chunk ⟨first, rest, number.toList⟩]

theorem carries_delivery {text : JsonText} {message : Message} {frame : List UInt8}
    (hframe : encodeFrame text message = .ok frame) (transport : Transport) (number : Option ℕ) :
    Carries transport (delivery frame number) frame number [] := by
  obtain ⟨payload, -, -, rfl⟩ := encodeFrame_payload hframe
  cases hframed : framed payload with
  | nil =>
    have hlength := framed_length payload
    rw [hframed, frameHeaderSize, List.length_nil] at hlength
    omega
  | cons first rest =>
    exact ⟨[⟨first, rest, number.toList⟩], rfl, List.append_nil _, rfl, fun _ => ⟨_, rfl⟩⟩

variable {host : Host} {service : Service} {op : Operation} {s s' : State} {result : Message}
  {fd number : Option ℕ} {sent frame : List UInt8}

/-- A request that is handled can be called, if its frames can be written. -/
theorem RemoteCall.whole (h : Connected host service) (hrequest : Survives host.text op.message)
    (hsent : encodeFrame host.text op.message = .ok sent)
    (hhandle : handle service.env service.endpoint op.message s = .ok (result, fd) s')
    (hframe : wireFrame service (okPayload result) fd = .ok frame)
    (hsurvives : Survives host.text (okPayload result)) (hnumber : number.isSome = fd.isSome) :
    RemoteCall host service op ⟨⟨delivery sent none, [], []⟩, s, [], 0⟩
      ⟨⟨delivery frame number, [], []⟩, true⟩ number
      ⟨⟨[], [], [] ++ fd.toList⟩, s', [⟨okPayload result, frame, fd⟩], 1⟩ where
  connected := h
  request := hrequest
  sent := ⟨sent, [], hsent, carries_delivery hsent service.transport none⟩
  served := by
    obtain ⟨payload, hdumps, hle, rfl⟩ := encodeFrame_payload hsent
    have hdecode : decodeFrame service.text (framed payload) = .ok op.message := by
      rw [h.text]
      exact decodeFrame_framed hle (hrequest payload hdumps)
    have hread : receiveFrame service ⟨delivery (framed payload) none, [], []⟩ =
        .ok (op.message, none) ⟨[], [], []⟩ := by
      have hoffers : Offers service.transport (delivery (framed payload) none) (framed payload)
          [] := carries_delivery hsent service.transport none
      exact (receiveFrame_offered hle hoffers).trans (by rw [hdecode]; rfl)
    have hanswer := answer_written (w := ⟨⟨[], [], []⟩, s', [], 0⟩) hframe (h.writes 0)
    refine ⟨.again, ?_⟩
    rw [serveOnce_request hread, serveRequest_handled hhandle, hanswer]
    rfl
  answered := ⟨_, [], rfl, hsurvives,
    carries_delivery (h.text ▸ (wireFrame_ok hframe).1) host.transport number, hnumber⟩
  fits result' fd' s'' h := by
    rw [hhandle] at h
    cases h
    exact ⟨frame, hframe⟩

/-- A library that writes plain text and reads these messages. -/
def plainTexts (messages : List Message) : JsonText where
  dumps m := match plainJson (.dict m) with
    | some payload => .ok payload
    | none => .error (.other "NotImplementedError" "")
  loads payload :=
    match messages.find? fun message => plainJson (.dict message) = some payload with
    | some message => .ok (.dict message)
    | none => .error .invalid

theorem plainTexts_payload {messages : List Message} {message : Message} {payload : List UInt8} :
    (plainTexts messages).dumps message = .ok payload ↔
      plainJson (.dict message) = some payload := by
  unfold plainTexts
  dsimp only
  cases plainJson (.dict message) <;> simp

/-- The first of the messages that are written like this one is read. -/
theorem plainTexts_survives (before after : List Message) {message : Message}
    (hbefore : ∀ m ∈ before, plainJson (.dict m) ≠ plainJson (.dict message)) :
    Survives (plainTexts (before ++ message :: after)) message := by
  intro payload h
  rw [plainTexts_payload] at h
  have hfind : (before ++ message :: after).find? (fun m => plainJson (.dict m) = some payload) =
      some message := by
    have hnone : before.find? (fun m => plainJson (.dict m) = some payload) = none := by
      rw [List.find?_eq_none]
      intro m hm
      rw [← h]
      simpa using hbefore m hm
    rw [List.find?_append, hnone, Option.none_or]
    exact List.find?_cons_of_pos (decide_eq_true h)
  unfold plainTexts
  dsimp only
  rw [hfind]

theorem plainTexts_frame (messages : List Message) {message : Message}
    (h : (plainJson (.dict message)).any (fun payload => payload.length ≤ maxFrame) = true) :
    ∃ frame, encodeFrame (plainTexts messages) message = .ok frame := by
  obtain ⟨payload, hpayload, hle⟩ := (Option.any_eq_true _ _).mp h
  have hlength : ¬ maxFrame < payload.length := Nat.not_lt.mpr (of_decide_eq_true hle)
  refine ⟨framed payload, ?_⟩
  rw [encodeFrame, plainTexts_payload.mpr hpayload]
  exact if_neg hlength

/-- Eight bytes of shared memory, without a shape. -/
def createEight : Operation := .create 8 (.leaf .none) (.leaf .none) "C" []

/-- The answer to the first create. -/
def createAnswer : Message :=
  [("object", firstObject.toPublic plainEnvironment), ("token", .leaf (.str (letters 't' 4))),
    ("mapping", .dict [("backend", .leaf (.str "memfd")), ("size", .leaf (.int 8))])]

def plainHost : Host where
  text := plainTexts [createEight.message, okPayload createAnswer]
  transport := .socket true
  connect := none
  write _ := none
  intOfStr _ := none
  strOf _ := none
  repr _ := ""
  nt := false
  mmap _ _ _ := .ok 4096
  mmapNamed _ _ _ := .error (.valueError "")

def plainService : Service where
  env := plainEnvironment
  text := plainHost.text
  endpoint := ""
  debug := false
  traceback _ := ""
  transport := .socket true
  writes _ := none

theorem remoteMessages_distinct :
    plainJson (.dict createEight.message) ≠ plainJson (.dict (okPayload createAnswer)) := by
  decide +kernel

/-- The object and its token, as the client that has called `create` has them. -/
theorem remote_run_create : ∃ s', Run (Direct plainEnvironment "") .init
    [.call plainHost createEight (some 30) (.ok (.object
      ⟨firstObject.toPublic plainEnvironment, letters 't' 4, .write, 4096⟩))] s' := by
  have hconnected : Connected plainHost plainService := ⟨rfl, rfl, rfl, fun _ => rfl, fun _ => rfl⟩
  have hrequest : Survives plainHost.text createEight.message :=
    plainTexts_survives [] [okPayload createAnswer] nofun
  have hanswer : Survives plainHost.text (okPayload createAnswer) :=
    plainTexts_survives [createEight.message] [] (by
      rintro m (_ | ⟨_, ⟨⟩⟩)
      exact remoteMessages_distinct)
  obtain ⟨sent, hsent⟩ : ∃ sent, encodeFrame plainHost.text createEight.message = .ok sent :=
    plainTexts_frame _ (by decide +kernel)
  obtain ⟨frame, hframe⟩ : ∃ frame, encodeFrame plainHost.text (okPayload createAnswer) =
      .ok frame := plainTexts_frame _ (by decide +kernel)
  have hwire : wireFrame plainService (okPayload createAnswer) (some 6) = .ok frame := by
    show (encodeFrame plainHost.text (okPayload createAnswer) >>= _) = _
    rw [hframe]
    rfl
  obtain ⟨s', hhandle⟩ : ∃ s', handle plainEnvironment "" createEight.message .init =
      .ok (createAnswer, some 6) s' := ⟨_, rfl⟩
  have hnumber : (some 30 : Option ℕ).isSome = (some 6 : Option ℕ).isSome := rfl
  have hcall := RemoteCall.whole hconnected hrequest hsent hhandle hwire hanswer hnumber
  obtain ⟨-, -, session', hread⟩ := hcall.handled hhandle
  have hsuits : Suits createEight (.created firstObject (letters 't' 4)
      (.dict [("backend", .leaf (.str "memfd")), ("size", .leaf (.int 8))])) := .create _ _ _
  have hvalue : ending (method plainHost createEight
      ⟨⟨delivery frame (some 30), [], []⟩, true⟩) = .ok (.object _) :=
    method_answered hsuits
      (show _ = EStateM.Result.ok (Given.reply plainEnvironment "" _, _) _ from hread)
  have hstep := remote_run (.single (.call rfl rfl hcall))
  rw [hvalue] at hstep
  exact ⟨s', hstep⟩

end Samples
end Npb.Mstore.Operations
