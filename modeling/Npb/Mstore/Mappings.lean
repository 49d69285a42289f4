import Mathlib.Logic.Function.Basic
import Npb.Foundations.Dict
import Npb.Foundations.Runs
import Npb.Python.Values

/-! # Mappings of a shared client

Threads open, release and cache the mappings of one `Client`. A mapping counts its leases and knows
whether it is cached, under a lock of its own; the cache has another lock, which a thread holds
through a whole cache operation while leases come and go. -/

namespace Npb.Mstore.Mappings
set_option autoImplicit false

/-! ## One mapping -/

/-- `_MappingState`. The last three fields are not in the source: how many buffers are exported,
whether a lease has been released or the mapping dropped from the cache, and whether the last
attempt to close it found a buffer exported. -/
structure Mapping where
  leases : ℕ
  cached : Bool
  closed : Bool
  exports : ℕ
  retired : Bool
  kept : Bool

namespace Mapping

def new : Mapping := ⟨0, false, false, 0, false, false⟩

/-- `_maybe_close_locked`: `close` raises `BufferError` while a buffer is exported. -/
def maybeClose (m : Mapping) : Mapping :=
  if m.cached = true ∨ m.leases ≠ 0 ∨ m.closed = true then m
  else if m.exports ≠ 0 then { m with kept := true }
  else { m with closed := true, kept := false }

def acquire (m : Mapping) : Except PyError Mapping :=
  if m.closed = true then .error (.other "RuntimeError" "shared-memory mapping is closed")
  else .ok { m with leases := m.leases + 1 }

def release (m : Mapping) : Mapping :=
  maybeClose { m with
    leases := if 0 < m.leases then m.leases - 1 else m.leases
    retired := true }

def setCached (cached : Bool) (m : Mapping) : Mapping :=
  maybeClose { m with cached := cached, retired := m.retired || !cached }

/-- A NumPy array or a memory view is made of the mapping. -/
def borrow (m : Mapping) : Mapping := { m with exports := m.exports + 1 }

/-- Such a buffer disappears. -/
def letGo (m : Mapping) : Mapping := { m with exports := m.exports - 1 }

end Mapping

/-! ## Threads -/

/-- How far the life of a `SharedObject` has come: `close` sets `_released` before it releases. -/
inductive Stage where
  | open
  | closing
  | closed
  deriving DecidableEq

/-- A `SharedObject`: one whose constructor raised is closed like the others, by `__del__`. -/
structure SharedObject where
  state : ℕ
  acquired : Bool
  stage : Stage

/-- Whether the object has a lease. -/
def SharedObject.active (o : SharedObject) : Bool := o.acquired && o.stage ≠ .closed

structure Key where
  objectId : String
  token : String
  mode : String
  deriving DecidableEq

/-- The filters of `clear_cache`. -/
def Key.selected (key : Key) (objectId token mode : Option String) : Bool :=
  objectId.all (· = key.objectId) && token.all (· = key.token) && mode.all (· = key.mode)

/-- Where a thread is in the methods of the client. -/
inductive Place where
  | idle
  | looking (key : Key)
  /-- `_cache_get` has taken a closed mapping out of the cache. -/
  | discarding (key : Key) (state : ℕ)
  /-- The server is asked for a mapping, which is to be cached under a key or not at all. -/
  | requesting (key : Option Key)
  | putting (key : Key) (state : ℕ)
  /-- `_cache_put` has taken an old mapping out of the cache. -/
  | replacing (key : Key) (state old : ℕ)
  | marking (key : Key) (state : ℕ)
  | inserting (key : Key) (state : ℕ)
  | trimming (state : ℕ)
  | evicting (state evicted : ℕ)
  /-- The `SharedObject` is about to be constructed. -/
  | leasing (state : ℕ)
  | clearing (states : List ℕ)

structure Client (T : Type) where
  cacheSize : ℕ
  cache : Dict Key ℕ
  hits : ℕ
  misses : ℕ
  evictions : ℕ
  lock : Option T
  mappings : List Mapping
  objects : List SharedObject
  thread : T → Place

variable {T : Type}

def Client.new (cacheSize : ℕ) : Client T :=
  ⟨cacheSize, .empty, 0, 0, 0, none, [], [], fun _ => .idle⟩

/-- A step on one mapping, under its lock. -/
def Client.change (s : Client T) (state : ℕ) (f : Mapping → Mapping) : Client T :=
  { s with mappings := s.mappings.modify state f }

section Steps
variable [DecidableEq T]

def Client.at (s : Client T) (t : T) (place : Place) : Client T :=
  { s with thread := Function.update s.thread t place }

section Fields
variable {s : Client T} {t u : T} {place : Place}

@[simp] theorem Client.at_thread_self : (s.at t place).thread t = place := Function.update_self ..

@[simp] theorem Client.at_thread_ne (h : u ≠ t) : (s.at t place).thread u = s.thread u :=
  Function.update_of_ne h ..

end Fields

/-- One step of a thread, or of whoever closes an object or lets go of a buffer. -/
inductive Step (s : Client T) : Client T → Prop
  | request (t : T) (hplace : s.thread t = .idle) : Step s (s.at t (.requesting none))
  | openCached (t : T) (key : Key) (hplace : s.thread t = .idle) : Step s (s.at t (.looking key))
  | miss (t : T) (key : Key) (hplace : s.thread t = .looking key) (hlock : s.lock = none)
    (hget : s.cache.get? key = none) :
    Step s ({ s with misses := s.misses + 1 }.at t (.requesting (some key)))
  | hit (t : T) (key : Key) (state : ℕ) (m : Mapping) (hplace : s.thread t = .looking key)
    (hlock : s.lock = none) (hget : s.cache.get? key = some state)
    (hm : s.mappings[state]? = some m) (hopen : m.closed = false) :
    Step s ({ s with cache := s.cache.moveToEnd key state, hits := s.hits + 1 }.at t
      (.leasing state))
  | stale (t : T) (key : Key) (state : ℕ) (m : Mapping) (hplace : s.thread t = .looking key)
    (hlock : s.lock = none) (hget : s.cache.get? key = some state)
    (hm : s.mappings[state]? = some m) (hclosed : m.closed = true) :
    Step s ({ s with cache := s.cache.pop key, lock := some t }.at t (.discarding key state))
  | discard (t : T) (key : Key) (state : ℕ) (hplace : s.thread t = .discarding key state) :
    Step s ({ s.change state (Mapping.setCached false) with
      lock := none, misses := s.misses + 1 }.at t (.requesting (some key)))
  | requestFailed (t : T) (key : Option Key) (hplace : s.thread t = .requesting key) :
    Step s (s.at t .idle)
  | map (t : T) (key : Option Key) (hplace : s.thread t = .requesting key) :
    Step s ({ s with mappings := s.mappings ++ [Mapping.new] }.at t
      (match key with
        | some key => .putting key s.mappings.length
        | none => .leasing s.mappings.length))
  | putNothing (t : T) (key : Key) (state : ℕ) (hplace : s.thread t = .putting key state)
    (hsize : s.cacheSize = 0) : Step s (s.at t (.leasing state))
  | put (t : T) (key : Key) (state : ℕ) (hplace : s.thread t = .putting key state)
    (hsize : s.cacheSize ≠ 0) (hlock : s.lock = none)
    (hnew : s.cache.get? key = none ∨ s.cache.get? key = some state) :
    Step s ({ s with cache := s.cache.pop key, lock := some t }.at t (.marking key state))
  | putOver (t : T) (key : Key) (state old : ℕ) (hplace : s.thread t = .putting key state)
    (hsize : s.cacheSize ≠ 0) (hlock : s.lock = none) (hget : s.cache.get? key = some old)
    (hne : old ≠ state) :
    Step s ({ s with cache := s.cache.pop key, lock := some t }.at t (.replacing key state old))
  | replace (t : T) (key : Key) (state old : ℕ) (hplace : s.thread t = .replacing key state old) :
    Step s ((s.change old (Mapping.setCached false)).at t (.marking key state))
  | mark (t : T) (key : Key) (state : ℕ) (hplace : s.thread t = .marking key state) :
    Step s ((s.change state (Mapping.setCached true)).at t (.inserting key state))
  | insert (t : T) (key : Key) (state : ℕ) (hplace : s.thread t = .inserting key state) :
    Step s ({ s with cache := s.cache.set key state }.at t (.trimming state))
  | evict (t : T) (state evicted : ℕ) (key : Key) (hplace : s.thread t = .trimming state)
    (hsize : s.cacheSize < s.cache.size) (hfirst : s.cache.items.head? = some (key, evicted)) :
    Step s ({ s with cache := s.cache.pop key, evictions := s.evictions + 1 }.at t
      (.evicting state evicted))
  | drop (t : T) (state evicted : ℕ) (hplace : s.thread t = .evicting state evicted) :
    Step s ((s.change evicted (Mapping.setCached false)).at t (.trimming state))
  | trimmed (t : T) (state : ℕ) (hplace : s.thread t = .trimming state)
    (hsize : s.cache.size ≤ s.cacheSize) :
    Step s ({ s with lock := none }.at t (.leasing state))
  | lease (t : T) (state : ℕ) (m m' : Mapping) (hplace : s.thread t = .leasing state)
    (hm : s.mappings[state]? = some m) (hacquire : m.acquire = .ok m') :
    Step s ({ s.change state fun _ => m' with
      objects := s.objects ++ [SharedObject.mk state true .open] }.at t .idle)
  | leaseFailed (t : T) (state : ℕ) (m : Mapping) (e : PyError)
    (hplace : s.thread t = .leasing state) (hm : s.mappings[state]? = some m)
    (hacquire : m.acquire = .error e) :
    Step s ({ s with objects := s.objects ++ [SharedObject.mk state false .open] }.at t .idle)
  | clear (t : T) (objectId token mode : Option String) (hplace : s.thread t = .idle)
    (hlock : s.lock = none) :
    Step s ({ s with
      cache := s.cache.filter fun e => !e.1.selected objectId token mode
      lock := some t }.at t
        (.clearing ((s.cache.filter fun e => e.1.selected objectId token mode).values)))
  | clearNext (t : T) (state : ℕ) (states : List ℕ)
    (hplace : s.thread t = .clearing (state :: states)) :
    Step s ((s.change state (Mapping.setCached false)).at t (.clearing states))
  | cleared (t : T) (hplace : s.thread t = .clearing []) :
    Step s ({ s with lock := none }.at t .idle)
  | close (i : ℕ) (o : SharedObject) (ho : s.objects[i]? = some o) (hstage : o.stage = .open) :
    Step s { s with objects := s.objects.set i { o with stage := .closing } }
  | release (i : ℕ) (o : SharedObject) (ho : s.objects[i]? = some o)
    (hstage : o.stage = .closing) :
    Step s { s.change o.state Mapping.release with
      objects := s.objects.set i { o with stage := .closed } }
  | borrow (state : ℕ) (m : Mapping) (hm : s.mappings[state]? = some m) (hopen : m.closed = false) :
    Step s (s.change state Mapping.borrow)
  | letGo (state : ℕ) : Step s (s.change state Mapping.letGo)

end Steps

end Npb.Mstore.Mappings
