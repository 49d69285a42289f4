import Mathlib.Data.Rat.Defs
import Mathlib.Algebra.Order.Ring.Rat
import Npb.Foundations.Dict
import Npb.Mstore.Permissions

/-! # The registry

The methods of `Registry` with the regions its objects own. Whatever the registry takes from outside
(the clock, random text, the calls of the operating system) comes from an `Environment`, one answer
for each question ever asked; `ticks` counts the questions. -/

namespace Npb.Mstore
set_option autoImplicit false
open Effects

/-! ## Times -/

/-- A float without its rounding. -/
inductive Instant where
  | nan
  | inf (negative : Bool)
  | finite (q : ℚ)
  deriving DecidableEq

namespace Instant

/-- `a < b`: a NaN is not less than anything. -/
def lt : Instant → Instant → Bool
  | .finite p, .finite q => p < q
  | .finite _, .inf negative => !negative
  | .inf negative, .finite _ => negative
  | .inf negative, .inf negative' => negative && !negative'
  | .nan, _ | _, .nan => false

/-- `a <= b`. -/
def le (a b : Instant) : Bool := a.lt b || (a = b && a ≠ nan)

/-- `min(a, b)`: the first argument, unless the second is less. -/
def min (a b : Instant) : Instant := if b.lt a then b else a

/-- `now + seconds`. -/
def after (now : ℚ) : Instant → Instant
  | .finite q => .finite (now + q)
  | seconds => seconds

end Instant

/-- The value of a float. -/
def instantOf : PyFloat → Instant
  | .nan => .nan
  | .inf negative => .inf negative
  | .finite negative mantissa exponent =>
    let magnitude : ℚ := mantissa * (2 : ℚ) ^ exponent
    .finite (if negative then -magnitude else magnitude)

/-! ## Records -/

inductive Region where
  | memfd (fd : ℤ) (size : ℤ) (name : String)
  | windowsNamed (closed : Bool) (size : ℤ) (name : String)
  deriving DecidableEq

namespace Region

def isOpen : Region → Bool
  | memfd fd _ _ => 0 ≤ fd
  | windowsNamed closed _ _ => !closed

/-- `close()`: the descriptor number is forgotten once it has been closed. -/
def close : Region → Region
  | memfd fd size name => memfd (if 0 ≤ fd then -1 else fd) size name
  | windowsNamed _ size name => windowsNamed true size name

@[simp] theorem isOpen_close (r : Region) : r.close.isOpen = false := by
  cases r with
  | memfd fd size name =>
    by_cases h : 0 ≤ fd
    · simp [close, isOpen, h]
    · simp [close, isOpen, h]
  | windowsNamed closed size name => rfl

end Region

/-- `region` is the place of the object's region among the regions ever created. -/
structure ObjectRecord where
  objectId : String
  size : ℤ
  region : ℕ
  generation : ℕ
  shape : Json
  dtype : Json
  order : Json
  metadata : Json
  createdAt : ℚ

structure TokenRecord where
  tokenHash : String
  objectId : String
  permissions : Finset Permission
  generation : ℕ
  createdAt : ℚ
  expiresAt : Option Instant
  revoked : Bool

/-- `_objects` and `_tokens`. -/
structure Registry where
  objects : Dict String ObjectRecord
  tokens : Dict String TokenRecord

/-- The registry, the regions created so far and those on which `close()` has been called. -/
structure State where
  registry : Registry
  regions : List Region
  closed : List ℕ
  ticks : ℕ

def State.init : State := ⟨⟨.empty, .empty⟩, [], [], 0⟩

/-! ## The environment -/

inductive Platform where
  | windows
  | linux
  | other
  deriving DecidableEq

structure Environment where
  platform : Platform
  time : ℕ → ℚ
  uuid4 : ℕ → String
  tokenUrlsafe : ℕ → String
  tokenHex : ℕ → String
  hashToken : String → String
  memfdCreate : ℕ → String → Except PyError ℕ
  ftruncate : ℕ → ℕ → ℤ → Except PyError Unit
  openReadOnly : ℕ → ℤ → Except PyError ℕ
  dup : ℕ → ℤ → Except PyError ℕ
  mmap : ℕ → ℤ → String → Except PyError Unit
  intOfStr : String → Option ℤ
  strOf : Json → Option String
  repr : Json → String
  sortedRepr : List Scalar → Except PyError String
  /-- The float nearest to a value. -/
  float : Instant → PyFloat

/-- A call of the server: it returns or raises, and the state it reached stays. -/
abbrev Call (α : Type) := EStateM Failure State α

section Methods
variable (env : Environment)

/-- One answer of the environment. -/
def ask {α : Type} (answers : ℕ → α) : Call α := fun s =>
  .ok (answers s.ticks) { s with ticks := s.ticks + 1 }

def raise {α : Type} (e : Failure) : Call α := fromExcept (.error e)

/-! ## Regions -/

/-- A descriptor whose file cannot be sized is closed at once, and no region has it. -/
def createMemfd (size : ℤ) (objectId : String) : Call Region := do
  let name := "mstore-" ++ objectId
  let fd ← fromExcept (python (← ask fun n => env.memfdCreate n name))
  fromExcept (python (← ask fun n => env.ftruncate n fd size))
  return .memfd fd size name

def createWindowsNamed (size : ℤ) (objectId : String) : Call Region := do
  let name := "mstore-" ++ objectId ++ "-" ++ (← ask env.tokenHex)
  fromExcept (python (← ask fun n => env.mmap n size name))
  return .windowsNamed false size name

def createRegion (size : ℤ) (objectId : String) : Call Region :=
  match env.platform with
  | .windows => createWindowsNamed env size objectId
  | .linux => createMemfd env size objectId
  | .other =>
    raise (.python (.other "RuntimeError"
      "mstore supports Linux (memfd) and Windows (named mmap)"))

/-- `region.client_mapping(mode)`: what the client maps, and a descriptor for it. -/
def clientMapping (region : Region) (mode : String) : Call (Json × Option ℕ) :=
  match region with
  | .memfd fd size _ => do
    let mapped : Json :=
      .dict [("backend", .leaf (.str "memfd")), ("size", .leaf (.int size))]
    if mode = "read" then
      let fd ← fromExcept (python (← ask fun n => env.openReadOnly n fd))
      return (mapped, some fd)
    else if mode = "write" then
      let fd ← fromExcept (python (← ask fun n => env.dup n fd))
      return (mapped, some fd)
    else
      raise (.python (.valueError ("unsupported mapping mode: " ++ mode)))
  | .windowsNamed _ size name =>
    if mode ≠ "read" ∧ mode ≠ "write" then
      raise (.python (.valueError ("unsupported mapping mode: " ++ mode)))
    else
      return (.dict [("backend", .leaf (.str "windows_named")), ("size", .leaf (.int size)),
        ("name", .leaf (.str name)), ("mode", .leaf (.str mode))], none)

def closeRegion (region : ℕ) : Call Unit :=
  modify fun s => { s with
    regions := s.regions.modify region Region.close
    closed := s.closed ++ [region] }

/-! ## Tokens -/

def issueLocked (obj : ObjectRecord) (permissions : Finset Permission)
    (expiresAt : Option Instant) : Call String := do
  let raw ← ask env.tokenUrlsafe
  let now ← ask env.time
  let record : TokenRecord :=
    ⟨env.hashToken raw, obj.objectId, permissions, obj.generation, now, expiresAt, false⟩
  modify fun s => { s with registry := { s.registry with
    tokens := s.registry.tokens.set record.tokenHash record } }
  return raw

/-- `token.expires_at is not None and now >= token.expires_at`. -/
def expired (now : ℚ) : Option Instant → Bool
  | none => false
  | some expiresAt => expiresAt.le (.finite now)

def createObject (size : ℤ) (shape dtype order metadata : Json) :
    Call (ObjectRecord × String) := do
  fromExcept (raiseIf (size ≤ 0) (invalidRequest "size must be > 0"))
  let objectId ← ask env.uuid4
  let region ← createRegion env size objectId
  let now ← ask env.time
  let s ← get
  let obj : ObjectRecord :=
    ⟨objectId, size, s.regions.length, 1, shape, dtype, order, metadata, now⟩
  set { s with
    registry := { s.registry with objects := s.registry.objects.set objectId obj }
    regions := s.regions ++ [region] }
  let token ← issueLocked env obj allPermissions none
  return (obj, token)

def validate (objectId rawToken : String) (required : Json) :
    Call (ObjectRecord × TokenRecord) := do
  fromExcept (raiseIf (rawToken = "") (authenticationError "missing token"))
  let required ← fromExcept (requiredSet env.sortedRepr required)
  let s ← get
  match s.registry.objects.get? objectId, s.registry.tokens.get? (env.hashToken rawToken) with
  | none, _ =>
    raise (.mstore .objectNotFound
      ("object " ++ env.repr (.leaf (.str objectId)) ++ " does not exist"))
  | some _, none => raise (authenticationError "invalid token")
  | some obj, some token => do
    fromExcept (raiseIf (token.objectId ≠ objectId) (authenticationError "invalid token"))
    fromExcept (raiseIf (token.revoked = true) (.mstore .tokenRevoked "token has been revoked"))
    let now ← ask env.time
    fromExcept (raiseIf (expired now token.expiresAt = true)
      (.mstore .tokenExpired "token has expired"))
    fromExcept (raiseIf (token.generation ≠ obj.generation)
      (authenticationError "token belongs to a stale object generation"))
    let missing := required.filter (· ∉ sortedNames token.permissions)
    if missing = [] then
      return (obj, token)
    else
      let text ← fromExcept (python (env.sortedRepr (missing.map Scalar.str)))
      raise (.mstore .permissionDenied ("token lacks permission(s): " ++ text))

/-! ## Delegation -/

inductive Number where
  | int (i : ℤ)
  | float (x : PyFloat)
  deriving DecidableEq

/-- The numbers among the values: anything else cannot be compared with `0`. -/
def numberOf : Json → Except PyError Number
  | .leaf s => ofScalar s
  | .list _ => .error (.typeError "'<=' not supported between instances of 'list' and 'int'")
  | .dict _ => .error (.typeError "'<=' not supported between instances of 'dict' and 'int'")
where
  ofScalar : Scalar → Except PyError Number
    | .int i => .ok (.int i)
    | .bool b => .ok (.int (if b then 1 else 0))
    | .float x => .ok (.float x)
    | .generic item => ofScalar item
    | _ => .error (.typeError "'<=' not supported with 'int'")

/-- `expires_in <= 0`. -/
def Number.notPositive : Number → Bool
  | .int i => i ≤ 0
  | .float x => (instantOf x).le (.finite 0)

/-- The integers from here on round to no float. -/
def floatLimit : ℤ := 2 ^ 1024 - 2 ^ 970

/-- `float(expires_in)`. -/
def Number.toFloat : Number → Except PyError Instant
  | .int i =>
    if floatLimit ≤ |i| then .error (.overflowError "int too large to convert to float")
    else .ok (.finite i)
  | .float x => .ok (instantOf x)

/-- The expiry of a new token: never after that of its issuer, if the comparison says so. -/
def expiryOf (expiresIn : Json) (issuer : Option Instant) : Call (Option Instant) :=
  match expiresIn with
  | .leaf .none => return issuer
  | expiresIn => do
    let seconds ← fromExcept (python (numberOf expiresIn))
    fromExcept (raiseIf (seconds.notPositive = true) (invalidRequest "expires_in must be > 0"))
    let now ← ask env.time
    let expiresAt := Instant.after now (← fromExcept (python seconds.toFloat))
    match issuer with
    | some limit => return some (expiresAt.min limit)
    | none => return some expiresAt

def issueToken (objectId issuerRaw : String) (permissions expiresIn : Json) : Call String := do
  let requested ← fromExcept (normalizePermissions env.sortedRepr permissions)
  let (obj, issuer) ← validate env objectId issuerRaw (.leaf (.str "grant"))
  fromExcept (raiseIf (¬ requested ⊆ issuer.permissions) (.mstore .permissionDenied
    "cannot delegate permissions the issuer does not possess"))
  let expiresAt ← expiryOf env expiresIn issuer.expiresAt
  issueLocked env obj requested expiresAt

def revokeToken (objectId issuerRaw targetRaw : String) : Call Unit := do
  let _ ← validate env objectId issuerRaw (.leaf (.str "grant"))
  let s ← get
  match s.registry.tokens.get? (env.hashToken targetRaw) with
  | none => raise (authenticationError "target token is invalid")
  | some target => do
    fromExcept (raiseIf (target.objectId ≠ objectId)
      (authenticationError "target token is invalid"))
    fromExcept (raiseIf (target.permissions = allPermissions ∧ targetRaw = issuerRaw)
      (invalidRequest "refusing to revoke the token currently authorizing this request"))
    set { s with registry := { s.registry with
      tokens := s.registry.tokens.set (env.hashToken targetRaw) { target with revoked := true } } }

def deleteObject (objectId rawToken : String) : Call Unit := do
  let (obj, _) ← validate env objectId rawToken (.leaf (.str "delete"))
  modify fun s => { s with registry :=
    ⟨s.registry.objects.pop objectId,
      s.registry.tokens.filter fun e => e.2.objectId ≠ objectId⟩ }
  closeRegion obj.region

/-- `close()` ignores what the regions raise. -/
def close : Call Unit := do
  let s ← get
  set { s with registry := ⟨.empty, .empty⟩ }
  s.registry.objects.values.forM fun obj => closeRegion obj.region

end Methods
end Npb.Mstore
