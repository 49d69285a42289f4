import Npb.Mstore.Worker

/-! # Operations of a client

`_request`, `_open_mapping` and the methods of `Client` that use them, with the descriptor that can
come with a response. Whatever a method checks before its request is in the types of its
arguments. -/

namespace Npb.Mstore.Operations
set_option autoImplicit false
open Effects

/-! ## Around a client -/

/-- `mmap.ACCESS_READ` or `mmap.ACCESS_WRITE`. -/
inductive Access where
  | read
  | write
  deriving DecidableEq

def Access.mode : Access → String
  | read => "read"
  | write => "write"

/-- What an operation has around it. `connect` is what `_ensure_connection` raises, `write` what
writing a frame raises before any byte of it was written, and `nt` whether `os.name == "nt"`; a
mapping is the address it is mapped at. -/
structure Host where
  text : JsonText
  transport : Transport
  connect : Option PyError
  write : List UInt8 → Option String
  intOfStr : String → Option ℤ
  strOf : Json → Option String
  repr : Json → String
  nt : Bool
  mmap : ℕ → ℤ → Access → Except PyError ℕ
  mmapNamed : Json → ℤ → Access → Except PyError ℕ

inductive RequestError where
  /-- What the server reports; the class is `MStoreError` itself when there is none. -/
  | remote (cls : Option ErrorClass) (message : Json)
  | protocol (message : String)
  | python (e : PyError)

/-- The receiving side of the connection, and whether `_conn` still is this connection. -/
structure Session where
  inbox : Inbox
  held : Bool

abbrev Requesting (α : Type) := EStateM RequestError Session α

/-! ## Requests -/

/-- A request of a method, with its arguments. -/
inductive Operation where
  | ping
  | create (size : ℤ) (shape dtype : Json) (order : String) (metadata : Message)
  | openObject (objectId token : String) (access : Access)
  | issueToken (objectId issuerToken : String) (permissions expiresIn : Json)
  | revokeToken (objectId issuerToken targetToken : String)
  | info (objectId token : String)
  | delete (objectId token : String)

namespace Operation

def name : Operation → String
  | ping => "ping"
  | create .. => "create"
  | openObject .. => "open"
  | issueToken .. => "grant"
  | revokeToken .. => "revoke"
  | info .. => "info"
  | delete .. => "delete"

def args : Operation → Message
  | ping => []
  | create size shape dtype order metadata =>
    [("size", .leaf (.int size)), ("shape", shape), ("dtype", dtype),
      ("order", .leaf (.str order)), ("metadata", .dict metadata)]
  | openObject objectId token access =>
    [("object_id", .leaf (.str objectId)), ("token", .leaf (.str token)),
      ("mode", .leaf (.str access.mode))]
  | issueToken objectId issuerToken permissions expiresIn =>
    [("object_id", .leaf (.str objectId)), ("token", .leaf (.str issuerToken)),
      ("permissions", permissions), ("expires_in", expiresIn)]
  | revokeToken objectId issuerToken targetToken =>
    [("object_id", .leaf (.str objectId)), ("token", .leaf (.str issuerToken)),
      ("target_token", .leaf (.str targetToken))]
  | info objectId token | delete objectId token =>
    [("object_id", .leaf (.str objectId)), ("token", .leaf (.str token))]

def message (op : Operation) : Message := [("op", .leaf (.str op.name)), ("args", .dict op.args)]

end Operation

/-- `ERROR_TYPES.get(kind, MStoreError)`. -/
def errorType (kind : String) : Option ErrorClass :=
  [.authenticationError, .permissionDenied, .objectNotFound, .tokenExpired, .tokenRevoked,
    .invalidRequest, .protocolError].find? fun cls : ErrorClass => cls.code = kind

/-- What is raised for a response that is not ok. -/
def errorOf (response : Message) : RequestError :=
  match orElse (getKey response "error") (.dict []) with
  | .dict error =>
    let kind := getOr error "type" (.leaf (.str "internal_error"))
    let message := getOr error "message" kind
    match kind with
    | .leaf (.str kind) => .remote (errorType kind) message
    | .leaf _ => .remote none message
    | _ => .python (.typeError "unhashable type")
  | _ => .python (.other "AttributeError" "object has no attribute 'get'")

/-- What `_request` makes of an exception on its connection. -/
def requestError (op : Operation) : WireError → RequestError
  | .other e => .python e
  | _ => .protocol ("mstore control connection failed during '" ++ op.name ++ "'")

def closeFd (fd : Option ℕ) : Requesting Unit := modify fun s =>
  { s with inbox := { s.inbox with closed := s.inbox.closed ++ fd.toList } }

/-- `try: x except (EOFError, OSError, ConnectionError, ProtocolError)` in `_request`. -/
def guarded {α : Type} (op : Operation) (x : Receive α) : Requesting α := fun s =>
  match x s.inbox with
  | .ok a inbox => .ok a { s with inbox := inbox }
  | .error e inbox => .error (requestError op e) ⟨inbox, s.held && !e.caught⟩

section Client
variable (host : Host)

def ensureConnection : Requesting Unit := fun s =>
  match host.connect with
  | some e => .error (.python e) s
  | none => .ok () { s with held := true }

/-- `conn.send(message)`. -/
def sendMessage (message : Message) : Except WireError Unit := do
  let frame ← encodeFrame host.text message
  match host.write frame with
  | some error => .error (.os error)
  | none => .ok ()

def request (op : Operation) : Requesting (Message × Option ℕ) := do
  ensureConnection host
  let (response, fd) ← guarded op do
    fromExcept (sendMessage host op.message)
    connRecv host.text host.transport
  if truthy (getKey response "ok") = false then do
    closeFd fd
    throw (errorOf response)
  else
    match getKey response "result" with
    | .dict result => return (result, fd)
    | _ => do
      closeFd fd
      throw (.protocol "server response is missing a result object")

/-- What the language or its library computes. -/
def compute {α : Type} (x : Except PyError α) : Requesting α :=
  match x with
  | .ok a => return a
  | .error e => throw (.python e)

/-! ## Mappings -/

/-- `_open_mapping`: of the exits, two close `fd`. -/
def openMapping (mapping : Json) (fd : Option ℕ) (access : Access) : Requesting ℕ :=
  match mapping with
  | .dict entries => do
    let backend := getKey entries "backend"
    let size ← compute (pyItem entries "size" >>= pyInt host.intOfStr)
    if isText "memfd" backend then
      match fd with
      | none => throw (.protocol "memfd response did not include a file descriptor")
      | some number => do
        let mapped := host.mmap number size access
        closeFd fd
        compute mapped
    else if isText "windows_named" backend then
      if host.nt = false then
        throw (.protocol "received a Windows mapping on a non-Windows client")
      else
        let name := getKey entries "name"
        if truthy name = false then
          throw (.protocol "Windows mapping response is missing its name")
        else compute (host.mmapNamed name size access)
    else do
      closeFd fd
      throw (.protocol ("unsupported mapping backend: " ++ host.repr backend))
  | _ => throw (.python (.other "AttributeError" "object has no attribute 'get'"))

/-! ## Methods -/

structure SharedObject where
  info : Json
  token : String
  access : Access
  mapping : ℕ

/-- A method that has no use for a descriptor closes it before it looks at the result. -/
def plainRequest {α : Type} (op : Operation) (finish : Message → Except RequestError α) :
    Requesting α := do
  let (result, fd) ← request host op
  closeFd fd
  fromExcept (finish result)

def ping : Requesting Message := plainRequest host .ping fun result => .ok result

def create (size : ℤ) (shape dtype : Json) (order : String) (metadata : Message) :
    Requesting SharedObject := do
  let (result, fd) ← request host (.create size shape dtype order metadata)
  let token ← compute (pyItem result "token" >>= pyStr host.strOf)
  let mapping ← compute (pyItem result "mapping")
  let mapped ← openMapping host mapping fd .write
  let info ← compute (pyItem result "object")
  return ⟨info, token, .write, mapped⟩

/-- `open` when the mapping is not cached. -/
def openObject (objectId token : String) (access : Access) : Requesting SharedObject := do
  let (result, fd) ← request host (.openObject objectId token access)
  let mapping ← compute (pyItem result "mapping")
  let mapped ← openMapping host mapping fd access
  let info ← compute (pyItem result "object")
  return ⟨info, token, access, mapped⟩

def issueToken (objectId issuerToken : String) (permissions expiresIn : Json) :
    Requesting String :=
  plainRequest host (.issueToken objectId issuerToken permissions expiresIn) fun result =>
    match pyItem result "token" >>= pyStr host.strOf with
    | .ok token => .ok token
    | .error e => .error (.python e)

def revokeToken (objectId issuerToken targetToken : String) : Requesting Unit :=
  plainRequest host (.revokeToken objectId issuerToken targetToken) fun result =>
    raiseIf (truthy (getKey result "revoked") = false)
      (.protocol "server did not confirm token revocation")

def info (objectId token : String) : Requesting Message :=
  plainRequest host (.info objectId token) fun result => .ok result

def delete (objectId token : String) : Requesting Unit :=
  plainRequest host (.delete objectId token) fun result =>
    raiseIf (truthy (getKey result "deleted") = false)
      (.protocol "server did not confirm object deletion")

/-- Any of the methods, whatever it returns. -/
def runOperation : Operation → Requesting Unit
  | .ping => ping host >>= fun _ => return
  | .create size shape dtype order metadata =>
    create host size shape dtype order metadata >>= fun _ => return
  | .openObject objectId token access => openObject host objectId token access >>= fun _ => return
  | .issueToken objectId issuerToken permissions expiresIn =>
    issueToken host objectId issuerToken permissions expiresIn >>= fun _ => return
  | .revokeToken objectId issuerToken targetToken =>
    revokeToken host objectId issuerToken targetToken
  | .info objectId token => info host objectId token >>= fun _ => return
  | .delete objectId token => delete host objectId token

end Client
end Npb.Mstore.Operations
