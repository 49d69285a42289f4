import Npb.Mstore.Calls

/-! # The request handler

`MStoreServer._handle`: every request is one call of the registry and an answer to it
(`handle_eq`). A run of the server keeps, beside each request and its outcome, the call that was
made for it. -/

namespace Npb.Mstore
set_option autoImplicit false
open Effects

/-! ## Values of a request -/

/-- The truth value of a value, as `or` sees it. -/
def truthy : Json → Bool
  | .leaf s => ofScalar s
  | .list xs => !xs.isEmpty
  | .dict kvs => !kvs.isEmpty
where
  ofScalar : Scalar → Bool
    | .none => false
    | .bool b => b
    | .int i => i ≠ 0
    | .float (.finite _ mantissa _) => mantissa ≠ 0
    | .float _ => true
    | .str s => s ≠ ""
    | .generic item => ofScalar item
    | .other _ => true

/-- `value or default`. -/
def orElse (value default : Json) : Json := if truthy value then value else default

/-- `mapping.get(key, default)`. -/
def getOr (kvs : List (String × Json)) (key : String) (default : Json) : Json :=
  (kvs.lookup key).getD default

/-- `mapping.get(key)`. -/
def getKey (kvs : List (String × Json)) (key : String) : Json := getOr kvs key (.leaf .none)

/-- `value == text`. -/
def isText (text : String) : Json → Bool
  | .leaf (.str s) => s = text
  | _ => false

theorem isText_eq {text : String} {value : Json} (h : isText text value = true) :
    value = .leaf (.str text) := by
  cases value with
  | leaf s =>
    cases s with
    | str s =>
      have hs : s = text := by simpa [isText] using h
      rw [hs]
    | _ => cases h
  | list xs => cases h
  | dict kvs => cases h

section Handle
variable (env : Environment)

/-- `args = request.get("args") or {}`. -/
def requestArgs (request : List (String × Json)) : Except Failure (List (String × Json)) :=
  match orElse (getKey request "args") (.dict []) with
  | .dict args => .ok args
  | _ => .error (invalidRequest "args must be an object")

/-- `str(args.get(key) or "")`. -/
def textArg (args : List (String × Json)) (key : String) : Except Failure String :=
  python (pyStr env.strOf (orElse (getKey args key) (.leaf (.str ""))))

/-- `int(args["size"])`. -/
def sizeArg (args : List (String × Json)) : Except Failure ℤ :=
  match pyItem args "size" >>= pyInt env.intOfStr with
  | .ok size => .ok size
  | .error e =>
    .error (if e.isLookupOrConversionError
      then invalidRequest "size is required and must be an integer" else .python e)

/-- The permission that a mapping in this mode needs; it has the name of the mode. -/
def requiredFor (mode : Json) : Option Permission :=
  if isText "write" mode then some .write
  else if isText "read" mode then some .read
  else none

def openRequired (args : List (String × Json)) : Option Permission :=
  requiredFor (getOr args "mode" (.leaf (.str "read")))

/-! ## Answers -/

def ObjectRecord.toPublic (obj : ObjectRecord) : Json :=
  .dict [
    ("object_id", .leaf (.str obj.objectId)),
    ("size", .leaf (.int obj.size)),
    ("generation", .leaf (.int obj.generation)),
    ("shape", obj.shape),
    ("dtype", obj.dtype),
    ("order", obj.order),
    ("metadata", obj.metadata),
    ("created_at", .leaf (.float (env.float (.finite obj.createdAt))))]

/-- A result object, and the descriptor that is sent with it. -/
abbrev Reply := List (String × Json) × Option ℕ

/-- `obj.region.client_mapping(mode)`; every object has its region. -/
def regionMapping (region : ℕ) (mode : String) : Call (Json × Option ℕ) := do
  let s ← get
  match s.regions[region]? with
  | some region => clientMapping env region mode
  | none => raise (.python (.keyError "region"))

def createReply (obj : ObjectRecord) (token : String) : Call Reply := do
  let (mapped, fd) ← regionMapping env obj.region "write"
  return ([("object", obj.toPublic env), ("token", .leaf (.str token)), ("mapping", mapped)], fd)

def openReply (obj : ObjectRecord) (mode : String) : Call Reply := do
  let (mapped, fd) ← regionMapping env obj.region mode
  return ([("object", obj.toPublic env), ("mapping", mapped)], fd)

def infoReply (obj : ObjectRecord) (token : TokenRecord) : Reply :=
  ([("object", obj.toPublic env),
    ("token", .dict [
      ("permissions", .list ((sortedNames token.permissions).map fun name => .leaf (.str name))),
      ("expires_at", match token.expiresAt with
        | some expiresAt => .leaf (.float (env.float expiresAt))
        | none => .leaf .none)])], none)

def flagReply (name : String) : Reply := ([(name, .leaf (.bool true))], none)

/-! ## Requests -/

def handleCreate (args : List (String × Json)) : Call Reply := do
  let size ← fromExcept (sizeArg env args)
  let (obj, token) ← createObject env size (getKey args "shape") (getKey args "dtype")
    (getOr args "order" (.leaf (.str "C"))) (orElse (getKey args "metadata") (.dict []))
  createReply env obj token

def handleOpen (args : List (String × Json)) (objectId token : String) : Call Reply :=
  match openRequired args with
  | none => raise (invalidRequest "mode must be 'read' or 'write'")
  | some required => do
    let (obj, _) ← validate env objectId token (.leaf (.str required.name))
    openReply env obj required.name

def handleInfo (objectId token : String) : Call Reply := do
  let (obj, tok) ← validate env objectId token (.leaf (.str "info"))
  return infoReply env obj tok

def handleGrant (args : List (String × Json)) (objectId token : String) : Call Reply := do
  let issued ← issueToken env objectId token (getOr args "permissions" (.leaf (.str "read")))
    (getKey args "expires_in")
  return ([("token", .leaf (.str issued))], none)

def handleRevoke (args : List (String × Json)) (objectId token : String) : Call Reply := do
  let target ← fromExcept (textArg env args "target_token")
  fromExcept (raiseIf (target = "") (invalidRequest "target_token is required"))
  revokeToken env objectId token target
  return flagReply "revoked"

def handleDelete (objectId token : String) : Call Reply := do
  deleteObject env objectId token
  return flagReply "deleted"

/-- `_handle(request)`. -/
def handle (endpoint : String) (request : List (String × Json)) : Call Reply := do
  let op := getKey request "op"
  let args ← fromExcept (requestArgs request)
  if isText "ping" op then
    return ([("pong", .leaf (.bool true)), ("endpoint", .leaf (.str endpoint))], none)
  else if isText "create" op then handleCreate env args
  else
    let objectId ← fromExcept (textArg env args "object_id")
    let token ← fromExcept (textArg env args "token")
    fromExcept (raiseIf (objectId = "") (invalidRequest "object_id is required"))
    if isText "open" op then handleOpen env args objectId token
    else if isText "info" op then handleInfo env objectId token
    else if isText "grant" op then handleGrant env args objectId token
    else if isText "revoke" op then handleRevoke env args objectId token
    else if isText "delete" op then handleDelete env objectId token
    else raise (invalidRequest ("unknown operation: " ++ env.repr op))

/-! ## The call behind a request -/

/-- The call of the registry that a request on an object leads to, if its arguments are in order. -/
def objectAction (op : Json) (args : List (String × Json)) (objectId token : String) :
    Option Action :=
  if isText "open" op then
    (openRequired args).map fun required =>
      .validate objectId token (.leaf (.str required.name))
  else if isText "info" op then some (.validate objectId token (.leaf (.str "info")))
  else if isText "grant" op then
    some (.issueToken objectId token (getOr args "permissions" (.leaf (.str "read")))
      (getKey args "expires_in"))
  else if isText "revoke" op then
    match textArg env args "target_token" with
    | .ok target => if target = "" then none else some (.revokeToken objectId token target)
    | .error _ => none
  else if isText "delete" op then some (.deleteObject objectId token)
  else none

/-- The object a request is about, and the token it carries. -/
def requestTarget (args : List (String × Json)) : Option (String × String) :=
  match textArg env args "object_id", textArg env args "token" with
  | .ok objectId, .ok token => if objectId = "" then none else some (objectId, token)
  | _, _ => none

def actionOf (request : List (String × Json)) : Option Action :=
  let op := getKey request "op"
  match requestArgs request with
  | .error _ => none
  | .ok args =>
    if isText "ping" op then none
    else if isText "create" op then
      match sizeArg env args with
      | .ok size => some (.createObject size (getKey args "shape") (getKey args "dtype")
          (getOr args "order" (.leaf (.str "C"))) (orElse (getKey args "metadata") (.dict [])))
      | .error _ => none
    else (requestTarget env args).bind fun target => objectAction env op args target.1 target.2

/-- What the handler makes of the answer to its call. -/
def respond (op : Json) (args : List (String × Json)) : Answer → Call Reply
  | .created obj token => createReply env obj token
  | .validated obj token =>
    if isText "open" op then
      match openRequired args with
      | some required => openReply env obj required.name
      | none => raise (invalidRequest "mode must be 'read' or 'write'")
    else return infoReply env obj token
  | .issued token => return ([("token", .leaf (.str token))], none)
  | .done => return flagReply (if isText "revoke" op then "revoked" else "deleted")

def operations : List String :=
  ["ping", "create", "open", "info", "grant", "revoke", "delete"]

def unknownOperation (op : Json) : Failure := invalidRequest ("unknown operation: " ++ env.repr op)

/-- Why a request with these arguments leads to no call. -/
inductive Idle (op : Json) (args : List (String × Json)) : Failure → Prop
  | size (e : Failure) (hsize : sizeArg env args = .error e) : Idle op args e
  | text (key : String) (e : Failure) (htext : textArg env args key = .error e) : Idle op args e
  | objectId : Idle op args (invalidRequest "object_id is required")
  | mode : Idle op args (invalidRequest "mode must be 'read' or 'write'")
  | target : Idle op args (invalidRequest "target_token is required")
  | unknown (target : String × String) (htarget : requestTarget env args = some target)
    (hop : ∀ name ∈ operations, isText name op = false) :
    Idle op args (unknownOperation env op)

variable {env} {request args : List (String × Json)} {action : Action}

theorem isText_other {text text' : String} {value : Json} (h : isText text value = true)
    (hne : text ≠ text') : isText text' value = false := by
  rw [isText_eq h]
  simpa [isText] using hne

theorem objectAction_eq {op : Json} {objectId token : String}
    (h : objectAction env op args objectId token = some action) :
    (if isText "open" op then handleOpen env args objectId token
      else if isText "info" op then handleInfo env objectId token
      else if isText "grant" op then handleGrant env args objectId token
      else if isText "revoke" op then handleRevoke env args objectId token
      else if isText "delete" op then handleDelete env objectId token
      else raise (invalidRequest ("unknown operation: " ++ env.repr op))) =
      perform env action >>= respond env op args := by
  unfold objectAction at h
  by_cases hopen : isText "open" op = true
  · rw [if_pos hopen] at h ⊢
    cases hrequired : openRequired args with
    | none =>
      rw [hrequired] at h
      cases h
    | some required =>
      rw [hrequired] at h
      cases h
      simp [handleOpen, hrequired, perform, respond, hopen]
  rw [if_neg hopen] at h ⊢
  by_cases hinfo : isText "info" op = true
  · rw [if_pos hinfo] at h ⊢
    cases h
    simp [handleInfo, perform, respond, hopen]
  rw [if_neg hinfo] at h ⊢
  by_cases hgrant : isText "grant" op = true
  · rw [if_pos hgrant] at h ⊢
    cases h
    simp [handleGrant, perform, respond]
  rw [if_neg hgrant] at h ⊢
  by_cases hrevoke : isText "revoke" op = true
  · rw [if_pos hrevoke] at h ⊢
    cases htarget : textArg env args "target_token" with
    | error e =>
      rw [htarget] at h
      cases h
    | ok target =>
      rw [htarget] at h
      dsimp only at h
      by_cases hempty : target = ""
      · rw [if_pos hempty] at h
        cases h
      · rw [if_neg hempty] at h
        cases h
        simp [handleRevoke, fromExcept_of_ok htarget, fromExcept_raiseIf hempty, perform, respond,
          hrevoke]
  rw [if_neg hrevoke] at h ⊢
  by_cases hdelete : isText "delete" op = true
  · rw [if_pos hdelete] at h ⊢
    cases h
    simp [handleDelete, perform, respond, hrevoke]
  · rw [if_neg hdelete] at h
    cases h

/-- A request that leads to no call answers at once, and raises unless it is a ping. -/
theorem objectAction_none {op : Json} {objectId token : String}
    (hping : ¬ isText "ping" op = true) (hcreate : ¬ isText "create" op = true)
    (htarget : requestTarget env args = some (objectId, token))
    (h : objectAction env op args objectId token = none) :
    ∃ failure, Idle env op args failure ∧
      (if isText "open" op then handleOpen env args objectId token
      else if isText "info" op then handleInfo env objectId token
      else if isText "grant" op then handleGrant env args objectId token
      else if isText "revoke" op then handleRevoke env args objectId token
      else if isText "delete" op then handleDelete env objectId token
      else raise (invalidRequest ("unknown operation: " ++ env.repr op))) = raise failure := by
  unfold objectAction at h
  by_cases hopen : isText "open" op = true
  · rw [if_pos hopen] at h ⊢
    rw [Option.map_eq_none_iff] at h
    exact ⟨_, .mode, by rw [handleOpen, h]⟩
  rw [if_neg hopen] at h ⊢
  by_cases hinfo : isText "info" op = true
  · rw [if_pos hinfo] at h
    cases h
  rw [if_neg hinfo] at h ⊢
  by_cases hgrant : isText "grant" op = true
  · rw [if_pos hgrant] at h
    cases h
  rw [if_neg hgrant] at h ⊢
  by_cases hrevoke : isText "revoke" op = true
  · rw [if_pos hrevoke] at h ⊢
    cases htext : textArg env args "target_token" with
    | error e =>
      refine ⟨e, .text _ e htext, ?_⟩
      rw [handleRevoke, htext]
      rfl
    | ok target =>
      rw [htext] at h
      dsimp only at h
      by_cases hempty : target = ""
      · refine ⟨_, .target, ?_⟩
        have hcheck : (fromExcept (raiseIf (target = "")
            (invalidRequest "target_token is required")) : Call Unit) =
            raise (invalidRequest "target_token is required") := by
          rw [raiseIf, if_pos hempty]
          rfl
        rw [handleRevoke, fromExcept_of_ok htext, pure_bind, hcheck]
        rfl
      · rw [if_neg hempty] at h
        cases h
  rw [if_neg hrevoke] at h ⊢
  by_cases hdelete : isText "delete" op = true
  · rw [if_pos hdelete] at h
    cases h
  · rw [if_neg hdelete]
    refine ⟨_, .unknown _ htarget ?_, rfl⟩
    simp [operations, hping, hcreate, hopen, hinfo, hgrant, hrevoke, hdelete]

/-- The handler is the call behind the request and the answer to it. -/
theorem handle_eq (endpoint : String) (h : actionOf env request = some action) :
    ∃ args, requestArgs request = .ok args ∧ handle env endpoint request =
      perform env action >>= respond env (getKey request "op") args := by
  unfold actionOf at h
  dsimp only at h
  cases hargs : requestArgs request with
  | error e =>
    rw [hargs] at h
    cases h
  | ok args =>
    refine ⟨args, rfl, ?_⟩
    rw [hargs] at h
    dsimp only at h
    unfold handle
    dsimp only
    rw [fromExcept_of_ok hargs, pure_bind]
    by_cases hping : isText "ping" (getKey request "op") = true
    · rw [if_pos hping] at h
      cases h
    rw [if_neg hping] at h ⊢
    by_cases hcreate : isText "create" (getKey request "op") = true
    · rw [if_pos hcreate] at h ⊢
      cases hsize : sizeArg env args with
      | error e =>
        rw [hsize] at h
        cases h
      | ok size =>
        rw [hsize] at h
        cases h
        simp [handleCreate, fromExcept_of_ok hsize, perform, respond]
    rw [if_neg hcreate] at h ⊢
    rw [Option.bind_eq_some_iff] at h
    obtain ⟨⟨objectId, token⟩, htarget, h⟩ := h
    unfold requestTarget at htarget
    cases hid : textArg env args "object_id" with
    | error e =>
      rw [hid] at htarget
      cases htarget
    | ok objectId' =>
    cases htok : textArg env args "token" with
    | error e =>
      rw [hid, htok] at htarget
      cases htarget
    | ok token' =>
      rw [hid, htok] at htarget
      dsimp only at htarget
      by_cases hempty : objectId' = ""
      · rw [if_pos hempty] at htarget
        cases htarget
      · rw [if_neg hempty] at htarget
        cases htarget
        rw [fromExcept_ok_bind, fromExcept_ok_bind, fromExcept_raiseIf hempty, pure_bind]
        exact objectAction_eq h

/-- Without a call the handler raises at once, unless it is pinged. -/
theorem handle_idle (endpoint : String) (h : actionOf env request = none) :
    (isText "ping" (getKey request "op") = true ∧
      ∃ reply, handle env endpoint request = pure reply) ∨
    ∃ failure, (requestArgs request = .error failure ∨ ∃ args, requestArgs request = .ok args ∧
      Idle env (getKey request "op") args failure) ∧
      handle env endpoint request = raise failure := by
  unfold actionOf at h
  dsimp only at h
  cases hargs : requestArgs request with
  | error e =>
    refine .inr ⟨e, .inl rfl, ?_⟩
    rw [handle, hargs]
    rfl
  | ok args =>
    rw [hargs] at h
    dsimp only at h
    unfold handle
    dsimp only
    rw [fromExcept_of_ok hargs, pure_bind]
    by_cases hping : isText "ping" (getKey request "op") = true
    · rw [if_pos hping]
      exact .inl ⟨hping, _, rfl⟩
    rw [if_neg hping] at h ⊢
    suffices hidle : ∃ failure, Idle env (getKey request "op") args failure ∧ _ = raise failure by
      obtain ⟨failure, hidle, hrun⟩ := hidle
      exact .inr ⟨failure, .inr ⟨args, rfl, hidle⟩, hrun⟩
    by_cases hcreate : isText "create" (getKey request "op") = true
    · rw [if_pos hcreate] at h ⊢
      cases hsize : sizeArg env args with
      | error e =>
        refine ⟨e, .size e hsize, ?_⟩
        rw [handleCreate, hsize]
        rfl
      | ok size =>
        rw [hsize] at h
        cases h
    rw [if_neg hcreate] at h ⊢
    cases hid : textArg env args "object_id" with
    | error e => exact ⟨e, .text _ e hid, rfl⟩
    | ok objectId =>
    cases htok : textArg env args "token" with
    | error e => exact ⟨e, .text _ e htok, rfl⟩
    | ok token =>
      rw [fromExcept_ok_bind, fromExcept_ok_bind]
      by_cases hempty : objectId = ""
      · refine ⟨_, .objectId, ?_⟩
        have hcheck : (fromExcept (raiseIf (objectId = "")
            (invalidRequest "object_id is required")) : Call Unit) =
            raise (invalidRequest "object_id is required") := by
          rw [raiseIf, if_pos hempty]
          rfl
        rw [hcheck]
        rfl
      · have htarget : requestTarget env args = some (objectId, token) := by
          rw [requestTarget, hid, htok]
          exact if_neg hempty
        rw [htarget] at h
        rw [fromExcept_raiseIf hempty, pure_bind]
        exact objectAction_none hping hcreate htarget h

/-! ## Runs of the server -/

theorem clientMapping_quiet (region : Region) (mode : String) :
    Quiet (clientMapping env region mode) := by
  unfold clientMapping
  cases region with
  | memfd fd size name =>
    dsimp only
    split
    · refine quiet_bind (quiet_ask _) fun opened => ?_
      exact quiet_bind (quiet_fromExcept _) fun fd => quiet_pure _
    · split
      · refine quiet_bind (quiet_ask _) fun opened => ?_
        exact quiet_bind (quiet_fromExcept _) fun fd => quiet_pure _
      · exact quiet_raise _
  | windowsNamed closed size name =>
    dsimp only
    split
    · exact quiet_raise _
    · exact quiet_pure _

theorem regionMapping_quiet (region : ℕ) (mode : String) :
    Quiet (regionMapping env region mode) := by
  unfold regionMapping
  refine quiet_bind quiet_get fun s => ?_
  cases s.regions[region]? with
  | none => exact quiet_raise _
  | some region => exact clientMapping_quiet region mode

theorem respond_quiet (op : Json) (args : List (String × Json)) (answer : Answer) :
    Quiet (respond env op args answer) := by
  cases answer with
  | created obj token => exact quiet_bind (regionMapping_quiet _ _) fun mapped => quiet_pure _
  | validated obj token =>
    unfold respond
    dsimp only
    split
    · cases openRequired args with
      | none => exact quiet_raise _
      | some required => exact quiet_bind (regionMapping_quiet _ _) fun mapped => quiet_pure _
    · exact quiet_pure _
  | issued token => exact quiet_pure _
  | done => exact quiet_pure _

end Handle

section Runs
variable (env : Environment) (endpoint : String)

/-- A request that was handled: the call made for it, if any, and how it ended. -/
structure Exchange where
  request : List (String × Json)
  call : Option Event
  outcome : Except Failure Reply

/-- What a computation returned or raised. -/
def outcomeOf {α : Type} : EStateM.Result Failure State α → Except Failure α
  | .ok a _ => .ok a
  | .error e _ => .error e

def Serve (s : State) (x : Exchange) (s' : State) : Prop :=
  outcomeOf (handle env endpoint x.request s) = x.outcome ∧
    finalState (handle env endpoint x.request s) = s' ∧
    x.call = (actionOf env x.request).map fun action =>
      ⟨action, outcomeOf (perform env action s)⟩

/-- The calls made by a run of the server. -/
def callsOf (exchanges : List Exchange) : List Event := exchanges.filterMap Exchange.call

variable {env endpoint} {s s' : State} {x : Exchange}

theorem step_perform (action : Action) (s : State) :
    Step env s ⟨action, outcomeOf (perform env action s)⟩ (finalState (perform env action s)) := by
  unfold Step
  cases perform env action s <;> rfl

/-- A request is at most one call of the registry. -/
theorem serve_step (h : Serve env endpoint s x s') :
    (x.call = none ∧ Unchanged s s') ∨
      ∃ e s₁, x.call = some e ∧ Step env s e s₁ ∧ Unchanged s₁ s' := by
  obtain ⟨-, hfinal, hcall⟩ := h
  cases haction : actionOf env x.request with
  | none =>
    rw [haction] at hcall
    refine .inl ⟨hcall, ?_⟩
    rw [← hfinal]
    obtain ⟨-, reply, hrun⟩ | ⟨failure, -, hrun⟩ := handle_idle endpoint haction
    · rw [hrun]
      exact quiet_pure _ s
    · rw [hrun]
      exact quiet_raise _ s
  | some action =>
    rw [haction] at hcall
    refine .inr ⟨_, finalState (perform env action s), hcall, step_perform action s, ?_⟩
    obtain ⟨args, -, hrun⟩ := handle_eq endpoint haction
    rw [hrun] at hfinal
    rw [← hfinal]
    cases hperform : perform env action s with
    | ok answer s₁ =>
      rw [bind_ok hperform]
      exact respond_quiet _ _ answer s₁
    | error failure s₁ =>
      rw [bind_error hperform]
      exact Unchanged.refl s₁

end Runs
end Npb.Mstore
