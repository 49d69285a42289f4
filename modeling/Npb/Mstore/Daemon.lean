import Mathlib.Logic.Function.Basic
import Npb.Foundations.Runs
import Npb.Mstore.Descriptors

/-! # The server as a whole

`serve_forever` accepts connections and starts a worker for each; `shutdown` may be called by any
number of other threads at any time, and in the end `_cleanup` hangs up all connections and closes
the registry. Threads take turns at any point between two atomic steps: a look at `_stop`, an
operation on `_connections` or the registry under its lock, one call of the operating system. -/

namespace Npb.Mstore
set_option autoImplicit false
open Effects

/-! ## Creating and closing in parts -/

section Parts
variable (env : Environment)

/-- `create_region`, and the id of the object that it is for. -/
def allocateRegion (size : ℤ) : Call (String × ℕ) := do
  let objectId ← ask env.uuid4
  let region ← createRegion env size objectId
  let s ← get
  set { s with regions := s.regions ++ [region] }
  return (objectId, s.regions.length)

/-- `Registry.close` as far as it holds the lock. -/
def clearRegistry : Call (List ObjectRecord) := do
  let s ← get
  set { s with registry := ⟨.empty, .empty⟩ }
  return s.registry.objects.values

variable {env}

theorem createObject_parts (size : ℤ) (shape dtype order metadata : Json) :
    createObject env size shape dtype order metadata = (do
      fromExcept (raiseIf (size ≤ 0) (invalidRequest "size must be > 0"))
      let (objectId, region) ← allocateRegion env size
      registerObject env size shape dtype order metadata objectId region) := by
  unfold createObject allocateRegion
  simp only [bind_assoc, pure_bind]
  rfl

theorem close_parts : close = (do
    let objects ← clearRegistry
    objects.forM fun obj => closeRegion obj.region) := by
  unfold close clearRegistry
  simp only [bind_assoc, pure_bind]

end Parts

namespace Daemon

/-! ## Threads -/

/-- Where the worker of a connection is. -/
inductive Place where
  | absent
  /-- Before `while not self._stop.is_set()`. -/
  | looping
  /-- In `conn.recv`. -/
  | waiting
  /-- A request has been received. -/
  | serving
  | creating (size : ℤ) (shape dtype order metadata : Json) (objectId : String) (region : ℕ)
  /-- The object is no longer registered. -/
  | removed (obj : ObjectRecord)
  /-- `_handle` has returned. -/
  | answering
  /-- Something has been raised. -/
  | failing
  | leaving
  | unregistering
  | ended

/-- Where `serve_forever` is. -/
inductive Main where
  | starting
  | looping
  | accepting
  /-- `accept` has returned. -/
  | accepted (conn : ℕ)
  /-- `_register_connection` has returned. -/
  | registered (conn : ℕ)
  | closingListener
  | listing
  | hanging (connections : List ℕ)
  | closing (objects : List ObjectRecord)
  | returned

/-- Where a thread is in `shutdown`. -/
inductive Caller where
  | idle
  | closingListener
  | listing
  | hanging (connections : List ℕ)

/-- `listening` and `closed` are what the operating system knows of the listener and of the
connections, which are numbered in the order in which they are accepted. -/
structure Server (P : Type) where
  store : State
  stop : Bool
  listening : Bool
  accepted : ℕ
  connections : List ℕ
  closed : ℕ → Bool
  worker : ℕ → Place
  main : Main
  caller : P → Caller

variable {P : Type}

def Server.new : Server P :=
  ⟨.init, false, false, 0, [], fun _ => false, fun _ => .absent, .starting, fun _ => .idle⟩

inductive Event where
  | received (conn : ℕ)
  /-- The object of a new region has been registered. -/
  | registered (conn region : ℕ)
  | stopped
  /-- `Registry.close` has emptied the registry. -/
  | cleared
  | other
  deriving DecidableEq

/-- `conn.close()`. -/
def Server.hangUp (s : Server P) (conn : ℕ) : Server P :=
  { s with closed := Function.update s.closed conn true }

def Server.at (s : Server P) (conn : ℕ) (place : Place) : Server P :=
  { s with worker := Function.update s.worker conn place }

def Server.call [DecidableEq P] (s : Server P) (p : P) (caller : Caller) : Server P :=
  { s with caller := Function.update s.caller p caller }

section Steps
variable [DecidableEq P] (env : Environment)

/-- One step of a worker. -/
inductive WorkerStep (s : Server P) (conn : ℕ) : Event → Server P → Prop
  | check (hplace : s.worker conn = .looping) (hstop : s.stop = false) :
    WorkerStep s conn .other (s.at conn .waiting)
  | quit (hplace : s.worker conn = .looping) (hstop : s.stop = true) :
    WorkerStep s conn .other (s.at conn .leaving)
  | receive (hplace : s.worker conn = .waiting) (hclosed : s.closed conn = false) :
    WorkerStep s conn (.received conn) (s.at conn .serving)
  /-- The stream ends or fails, a frame is malformed, or a descriptor comes with it. -/
  | receiveFailed (hplace : s.worker conn = .waiting) :
    WorkerStep s conn .other (s.at conn .leaving)
  /-- A request that the registry has nothing to do with. -/
  | pong (hplace : s.worker conn = .serving) : WorkerStep s conn .other (s.at conn .answering)
  | invalid (hplace : s.worker conn = .serving) : WorkerStep s conn .other (s.at conn .failing)
  | call (action : Action) (answer : Answer) (store : State)
    (hplace : s.worker conn = .serving) (hkeeps : Descriptors.Keeps action)
    (hcall : perform env action s.store = .ok answer store) :
    WorkerStep s conn .other ({ s with store := store }.at conn .answering)
  | refuse (action : Action) (failure : Failure) (store : State)
    (hplace : s.worker conn = .serving)
    (hcall : perform env action s.store = .error failure store) :
    WorkerStep s conn .other ({ s with store := store }.at conn .failing)
  | create (size : ℤ) (shape dtype order metadata : Json) (objectId : String) (region : ℕ)
    (store : State) (hplace : s.worker conn = .serving) (hsize : 0 < size)
    (hcall : allocateRegion env size s.store = .ok (objectId, region) store) :
    WorkerStep s conn .other ({ s with store := store }.at conn
      (.creating size shape dtype order metadata objectId region))
  | register (size : ℤ) (shape dtype order metadata : Json) (objectId token : String)
    (region : ℕ) (obj : ObjectRecord) (store : State)
    (hplace : s.worker conn = .creating size shape dtype order metadata objectId region)
    (hcall : registerObject env size shape dtype order metadata objectId region s.store =
      .ok (obj, token) store) :
    WorkerStep s conn (.registered conn region) ({ s with store := store }.at conn .answering)
  | remove (objectId rawToken : String) (obj : ObjectRecord) (store : State)
    (hplace : s.worker conn = .serving)
    (hcall : removeObject env objectId rawToken s.store = .ok obj store) :
    WorkerStep s conn .other ({ s with store := store }.at conn (.removed obj))
  | closeRegion (obj : ObjectRecord) (store : State) (hplace : s.worker conn = .removed obj)
    (hcall : closeRegion obj.region s.store = .ok () store) :
    WorkerStep s conn .other ({ s with store := store }.at conn .answering)
  | answer (hplace : s.worker conn = .answering) (hclosed : s.closed conn = false) :
    WorkerStep s conn .other (s.at conn .looping)
  /-- No descriptor can be opened for the client, or the response cannot be sent. -/
  | answerFailed (hplace : s.worker conn = .answering) :
    WorkerStep s conn .other (s.at conn .failing)
  | report (hplace : s.worker conn = .failing) (hclosed : s.closed conn = false) :
    WorkerStep s conn .other (s.at conn .looping)
  | reportFailed (hplace : s.worker conn = .failing) :
    WorkerStep s conn .other (s.at conn .leaving)
  | hangUp (hplace : s.worker conn = .leaving) :
    WorkerStep s conn .other ((s.hangUp conn).at conn .unregistering)
  | unregister (hplace : s.worker conn = .unregistering) :
    WorkerStep s conn .other
      ({ s with connections := s.connections.filter (· ≠ conn) }.at conn .ended)

/-- One step of `serve_forever`. -/
inductive MainStep (s : Server P) : Event → Server P → Prop
  | listen (hmain : s.main = .starting) :
    MainStep s .other { s with listening := true, main := .looping }
  | listenFailed (hmain : s.main = .starting) :
    MainStep s .other { s with main := .closingListener }
  | check (hmain : s.main = .looping) (hstop : s.stop = false) :
    MainStep s .other { s with main := .accepting }
  | quit (hmain : s.main = .looping) (hstop : s.stop = true) :
    MainStep s .other { s with main := .closingListener }
  | accept (hmain : s.main = .accepting) (hlistening : s.listening = true) :
    MainStep s .other { s with accepted := s.accepted + 1, main := .accepted s.accepted }
  | timeout (hmain : s.main = .accepting) : MainStep s .other { s with main := .looping }
  /-- `accept` raises: the loop is left, whether `_stop` is set or not. -/
  | acceptFailed (hmain : s.main = .accepting) :
    MainStep s .other { s with main := .closingListener }
  | register (conn : ℕ) (hmain : s.main = .accepted conn) :
    MainStep s .other
      { s with connections := s.connections ++ [conn], main := .registered conn }
  | start (conn : ℕ) (hmain : s.main = .registered conn) :
    MainStep s .other ({ s with main := .looping }.at conn .looping)
  | startFailed (conn : ℕ) (hmain : s.main = .registered conn) :
    MainStep s .other { s with main := .closingListener }
  | closeListener (hmain : s.main = .closingListener) :
    MainStep s .other { s with listening := false, main := .listing }
  | list (hmain : s.main = .listing) :
    MainStep s .other { s with main := .hanging s.connections }
  | hangUp (conn : ℕ) (rest : List ℕ) (hmain : s.main = .hanging (conn :: rest)) :
    MainStep s .other { s.hangUp conn with main := .hanging rest }
  | clear (objects : List ObjectRecord) (store : State) (hmain : s.main = .hanging [])
    (hcall : clearRegistry s.store = .ok objects store) :
    MainStep s .cleared { s with store := store, main := .closing objects }
  | closeRegion (obj : ObjectRecord) (rest : List ObjectRecord) (store : State)
    (hmain : s.main = .closing (obj :: rest))
    (hcall : closeRegion obj.region s.store = .ok () store) :
    MainStep s .other { s with store := store, main := .closing rest }
  | finish (hmain : s.main = .closing []) : MainStep s .other { s with main := .returned }

/-- One step of a thread in `shutdown`. -/
inductive CallerStep (s : Server P) (p : P) : Event → Server P → Prop
  | stop (hcaller : s.caller p = .idle) :
    CallerStep s p .stopped ({ s with stop := true }.call p .closingListener)
  | closeListener (hcaller : s.caller p = .closingListener) :
    CallerStep s p .other ({ s with listening := false }.call p .listing)
  | list (hcaller : s.caller p = .listing) :
    CallerStep s p .other (s.call p (.hanging s.connections))
  | hangUp (conn : ℕ) (rest : List ℕ) (hcaller : s.caller p = .hanging (conn :: rest)) :
    CallerStep s p .other ((s.hangUp conn).call p (.hanging rest))
  | finish (hcaller : s.caller p = .hanging []) : CallerStep s p .other (s.call p .idle)

inductive Step (s : Server P) (e : Event) (s' : Server P) : Prop
  | worker (conn : ℕ) (h : WorkerStep env s conn e s')
  | main (h : MainStep s e s')
  | caller (p : P) (h : CallerStep s p e s')

end Steps

end Daemon
end Npb.Mstore
