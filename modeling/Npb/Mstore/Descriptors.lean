import Mathlib.Logic.Function.Basic
import Npb.Mstore.Calls

/-! # Descriptors of a server at work

Each connection of the server has a worker of its own, and workers take turns at any point between
two atomic steps: a call of the registry under its lock, one read or write of a region's `fd`, one
call of the operating system. The numbers of descriptors belong to the whole process, and the
operating system may give out any number that is free. -/

namespace Npb.Mstore
set_option autoImplicit false
open Effects

/-! ## Creating and deleting in parts -/

section Parts
variable (env : Environment)

/-- `create_object` once the region is there. -/
def registerObject (size : ℤ) (shape dtype order metadata : Json) (objectId : String)
    (region : ℕ) : Call (ObjectRecord × String) := do
  let now ← ask env.time
  let obj : ObjectRecord := ⟨objectId, size, region, 1, shape, dtype, order, metadata, now⟩
  modify fun s => { s with
    registry := { s.registry with objects := s.registry.objects.set objectId obj } }
  let token ← issueLocked env obj allPermissions none
  return (obj, token)

/-- `delete_object` as far as it holds the lock. -/
def removeObject (objectId rawToken : String) : Call ObjectRecord := do
  let (obj, _) ← validate env objectId rawToken (.leaf (.str "delete"))
  modify fun s => { s with registry :=
    ⟨s.registry.objects.pop objectId,
      s.registry.tokens.filter fun e => e.2.objectId ≠ objectId⟩ }
  return obj

variable {env}

theorem createObject_eq (hlinux : env.platform = .linux) (size : ℤ)
    (shape dtype order metadata : Json) :
    createObject env size shape dtype order metadata = (do
      fromExcept (raiseIf (size ≤ 0) (invalidRequest "size must be > 0"))
      let objectId ← ask env.uuid4
      let region ← createMemfd env size objectId
      let s ← get
      set { s with regions := s.regions ++ [region] }
      registerObject env size shape dtype order metadata objectId s.regions.length) := by
  unfold createObject createRegion
  rw [hlinux]
  rfl

theorem deleteObject_eq (objectId rawToken : String) :
    deleteObject env objectId rawToken = (do
      let obj ← removeObject env objectId rawToken
      closeRegion obj.region) := by
  unfold deleteObject removeObject
  rw [bind_assoc]
  rfl

theorem registerObject_run {size : ℤ} {shape dtype order metadata : Json} {objectId token : String}
    {region : ℕ} {obj : ObjectRecord} {s s' : State}
    (h : registerObject env size shape dtype order metadata objectId region s =
      .ok (obj, token) s') :
    obj.region = region ∧ s'.registry.objects = s.registry.objects.set objectId obj ∧
      s'.regions = s.regions := by
  cases h
  exact ⟨rfl, rfl, rfl⟩

theorem removeObject_ok {objectId rawToken : String} {obj : ObjectRecord} {s s' : State}
    (h : removeObject env objectId rawToken s = .ok obj s') :
    s.registry.objects.get? objectId = some obj ∧
      s'.registry.objects = s.registry.objects.pop objectId ∧ s'.regions = s.regions := by
  unfold removeObject at h
  rw [bind_eq_ok] at h
  obtain ⟨⟨obj', token⟩, s₁, hvalidate, h⟩ := h
  obtain ⟨hauthorised, -, rfl⟩ := validate_permission (p := .delete) hvalidate
  cases h
  exact ⟨hauthorised.registered, rfl, rfl⟩

end Parts

namespace Descriptors

/-! ## The table of descriptors -/

/-- What a descriptor refers to: the memory created for a region, or a connection. -/
inductive Target where
  | memory (region : ℕ)
  | socket
  deriving DecidableEq

/-- Who is going to close a descriptor. -/
inductive Holder (W : Type) where
  | region (region : ℕ)
  | worker (w : W)
  | connection

structure Descriptor (W : Type) where
  target : Target
  holder : Holder W

inductive Mode where
  | read
  | write
  deriving DecidableEq

def Mode.permission : Mode → Permission
  | read => .read
  | write => .write

/-- `os.dup` takes any descriptor; a socket cannot be reopened through procfs. -/
def Mode.opens : Mode → Target → Bool
  | read, .socket => false
  | _, _ => true

/-- `region.fd`. -/
def fdOf (s : State) (region : ℕ) : ℤ :=
  match s.regions[region]? with
  | some (.memfd fd _ _) => fd
  | _ => -1

/-! ## Workers -/

/-- Where a worker is in the request that it serves. -/
inductive Place where
  | idle
  /-- `memfd_create` has returned the descriptor of a new region. -/
  | creating (size : ℤ) (shape dtype order metadata : Json) (objectId : String) (region : ℕ)
  /-- The object has been validated, or created. -/
  | mapping (obj : ObjectRecord) (mode : Mode)
  /-- `region.fd` has been read. -/
  | holding (obj : ObjectRecord) (mode : Mode) (fd : ℤ)
  | opened (obj : ObjectRecord) (fd : ℕ)
  /-- The object is no longer registered. -/
  | removed (obj : ObjectRecord)
  /-- `os.close` has returned. -/
  | closing (obj : ObjectRecord)

/-- A response with a descriptor: the object it is about, and what the descriptor refers to. -/
structure Sent where
  obj : ObjectRecord
  target : Target

structure Server (W : Type) where
  store : State
  table : ℕ → Option (Descriptor W)
  worker : W → Place
  sent : List Sent

variable {W : Type}

def Server.new : Server W := ⟨.init, fun _ => none, fun _ => .idle, []⟩

/-- The calls that neither create nor delete an object. -/
def Keeps : Action → Prop
  | .validate .. | .issueToken .. | .revokeToken .. => True
  | _ => False

/-- The operating system gives out a number. -/
def Server.take (s : Server W) (n : ℕ) (d : Descriptor W) : Server W :=
  { s with table := Function.update s.table n (some d) }

/-- `os.close`. -/
def Server.free (s : Server W) (n : ℕ) : Server W :=
  { s with table := Function.update s.table n none }

def Server.withRegions (s : Server W) (regions : List Region) : Server W :=
  { s with store := { s.store with regions := regions } }

section Fields
variable {s : Server W} {n m : ℕ} {d : Descriptor W}

@[simp] theorem Server.take_table_self : (s.take n d).table n = some d := Function.update_self ..

@[simp] theorem Server.take_table_ne (h : m ≠ n) : (s.take n d).table m = s.table m :=
  Function.update_of_ne h ..

@[simp] theorem Server.free_table_self : (s.free n).table n = none := Function.update_self ..

@[simp] theorem Server.free_table_ne (h : m ≠ n) : (s.free n).table m = s.table m :=
  Function.update_of_ne h ..

end Fields

section Steps
variable [DecidableEq W]

def Server.at (s : Server W) (w : W) (place : Place) : Server W :=
  { s with worker := Function.update s.worker w place }

section Fields
variable {s : Server W} {w u : W} {place : Place}

@[simp] theorem Server.at_worker_self : (s.at w place).worker w = place := Function.update_self ..

@[simp] theorem Server.at_worker_ne (h : u ≠ w) : (s.at w place).worker u = s.worker u :=
  Function.update_of_ne h ..

end Fields

variable (env : Environment)

/-- One step of the server. -/
inductive Step (s : Server W) : Server W → Prop
  /-- A request that raises in the registry. -/
  | refuse (action : Action) (failure : Failure) (store : State)
    (hcall : perform env action s.store = .error failure store) : Step s { s with store := store }
  | call (action : Action) (answer : Answer) (store : State) (hkeeps : Keeps action)
    (hcall : perform env action s.store = .ok answer store) : Step s { s with store := store }
  | create (w : W) (size : ℤ) (shape dtype order metadata : Json) (n : ℕ)
    (hplace : s.worker w = .idle) (hsize : 0 < size) (hfree : s.table n = none) :
    Step s (({ s with store := { s.store with
        regions := s.store.regions ++
          [Region.memfd n size ("mstore-" ++ env.uuid4 s.store.ticks)]
        ticks := s.store.ticks + 1 } }.take n
          ⟨.memory s.store.regions.length, .region s.store.regions.length⟩).at w
        (.creating size shape dtype order metadata (env.uuid4 s.store.ticks)
          s.store.regions.length))
  | truncateFailed (w : W) (size : ℤ) (shape dtype order metadata : Json) (objectId : String)
    (region n : ℕ)
    (hplace : s.worker w = .creating size shape dtype order metadata objectId region)
    (hfd : fdOf s.store region = n) :
    Step s (((s.withRegions (s.store.regions.modify region Region.close)).free n).at w .idle)
  | register (w : W) (size : ℤ) (shape dtype order metadata : Json) (objectId : String)
    (region : ℕ) (obj : ObjectRecord) (token : String) (store : State)
    (hplace : s.worker w = .creating size shape dtype order metadata objectId region)
    (hcall : registerObject env size shape dtype order metadata objectId region s.store =
      .ok (obj, token) store) :
    Step s ({ s with store := store }.at w (.mapping obj .write))
  | open (w : W) (objectId rawToken : String) (mode : Mode) (obj : ObjectRecord)
    (token : TokenRecord) (store : State) (hplace : s.worker w = .idle)
    (hcall : validate env objectId rawToken (.leaf (.str mode.permission.name)) s.store =
      .ok (obj, token) store) :
    Step s ({ s with store := store }.at w (.mapping obj mode))
  | read (w : W) (obj : ObjectRecord) (mode : Mode) (hplace : s.worker w = .mapping obj mode) :
    Step s (s.at w (.holding obj mode (fdOf s.store obj.region)))
  /-- `os.dup`, or `os.open` of the number through procfs. -/
  | duplicate (w : W) (obj : ObjectRecord) (mode : Mode) (n k : ℕ) (d : Descriptor W)
    (hplace : s.worker w = .holding obj mode n) (hd : s.table n = some d)
    (hopens : mode.opens d.target = true) (hfree : s.table k = none) :
    Step s ((s.take k ⟨d.target, .worker w⟩).at w (.opened obj k))
  | duplicateFailed (w : W) (obj : ObjectRecord) (mode : Mode) (fd : ℤ)
    (hplace : s.worker w = .holding obj mode fd) : Step s (s.at w .idle)
  | send (w : W) (obj : ObjectRecord) (k : ℕ) (d : Descriptor W)
    (hplace : s.worker w = .opened obj k) (hd : s.table k = some d) :
    Step s { (s.free k).at w .idle with sent := s.sent ++ [⟨obj, d.target⟩] }
  | sendFailed (w : W) (obj : ObjectRecord) (k : ℕ) (hplace : s.worker w = .opened obj k) :
    Step s ((s.free k).at w .idle)
  | remove (w : W) (objectId rawToken : String) (obj : ObjectRecord) (store : State)
    (hplace : s.worker w = .idle)
    (hcall : removeObject env objectId rawToken s.store = .ok obj store) :
    Step s ({ s with store := store }.at w (.removed obj))
  | close (w : W) (obj : ObjectRecord) (n : ℕ) (hplace : s.worker w = .removed obj)
    (hfd : fdOf s.store obj.region = n) : Step s ((s.free n).at w (.closing obj))
  | closeNothing (w : W) (obj : ObjectRecord) (hplace : s.worker w = .removed obj)
    (hfd : fdOf s.store obj.region < 0) : Step s (s.at w .idle)
  | forget (w : W) (obj : ObjectRecord) (store : State) (hplace : s.worker w = .closing obj)
    (hcall : closeRegion obj.region s.store = .ok () store) :
    Step s ({ s with store := store }.at w .idle)
  | accept (n : ℕ) (hfree : s.table n = none) : Step s (s.take n ⟨.socket, .connection⟩)
  | hangUp (n : ℕ) (hd : s.table n = some ⟨.socket, .connection⟩) : Step s (s.free n)

end Steps

/-! ## When a number may be given out -/

/-- A worker that is to duplicate the descriptor with this number. -/
def Server.Reads (s : Server W) (w : W) (obj : ObjectRecord) (mode : Mode) (fd : ℤ) : Prop :=
  (s.worker w = .mapping obj mode ∧ fdOf s.store obj.region = fd) ∨
    s.worker w = .holding obj mode fd

/-- No number is given out that some worker is to duplicate. -/
def Server.Spares (s s' : Server W) : Prop :=
  ∀ (n : ℕ) d, s.table n = none → s'.table n = some d →
    ∀ w obj mode, s.Reads w obj mode n → mode.opens d.target = false

end Descriptors
end Npb.Mstore
