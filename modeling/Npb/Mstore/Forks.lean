import Npb.Mstore.Responses

/-! # Forks

A process forks while it has a `Client`. The child has a copy of it: the connection of the parent,
and a lock that is held if a thread of the parent held it. `_request` takes the lock first; then it
sees that `_pid` is another process, closes the connection it has inherited and makes a new lock.
The lock knows its holder by the ident, which a new thread of the child may have again. -/

namespace Npb.Mstore.Control.Forks
set_option autoImplicit false

/-! ## Processes -/

/-- A `threading.RLock`: the ident of its holder, and how often that has taken it. -/
inductive Lock (T : Type) where
  | free
  | held (t : T) (count : ℕ)

section Locks
variable {T : Type}

/-- A thread gets a lock that is free, or that a thread of its ident has. -/
def Lock.acquire [DecidableEq T] (t : T) : Lock T → Option (Lock T)
  | .free => some (.held t 1)
  | .held u count => if u = t then some (.held u (count + 1)) else none

def Lock.release : Lock T → Lock T
  | .held t (count + 2) => .held t (count + 1)
  | .held _ _ | .free => .free

theorem Lock.acquire_eq_some [DecidableEq T] {t : T} {l l' : Lock T} :
    l.acquire t = some l' ↔
      (l = .free ∧ l' = .held t 1) ∨ ∃ count, l = .held t count ∧ l' = .held t (count + 1) := by
  cases l with
  | free => simp [acquire, eq_comm]
  | held u count =>
    by_cases hu : u = t
    · simp [acquire, hu, eq_comm]
    · simp [acquire, hu]

/-- Nobody else gets a lock that is held. -/
theorem Lock.acquire_held [DecidableEq T] {t u : T} {count : ℕ} {l : Lock T}
    (h : (Lock.held u count).acquire t = some l) : u = t := by
  obtain ⟨hfree, -⟩ | ⟨count', hheld, -⟩ := acquire_eq_some.mp h
  · cases hfree
  · cases hheld
    rfl

theorem Lock.acquired [DecidableEq T] {t : T} {l l' : Lock T} (h : l.acquire t = some l') :
    ∃ count, l' = .held t (count + 1) := by
  obtain ⟨-, rfl⟩ | ⟨count, -, rfl⟩ := acquire_eq_some.mp h
  · exact ⟨0, rfl⟩
  · exact ⟨count, rfl⟩

end Locks

/-- Where a thread is: `with self._request_lock` looks the lock up before it waits for it. A thread
in `close` waits with no message. -/
inductive Place where
  | idle
  | waiting (message : Option Message) (lock : ℕ)
  | inside (lock : ℕ) (place : Control.Place)

/-- The lock that a thread waits for or has. -/
def Place.lock? : Place → Option ℕ
  | .idle => none
  | .waiting _ lock | .inside lock _ => some lock

/-- Where the thread is in `_request`. -/
def Place.inRequest : Place → Control.Place
  | .inside _ place => place
  | .idle | .waiting .. => .idle

/-- The `Client` of one process, with its threads and the responses that they have returned. The
threads go by their idents. The locks are numbered, and `lock` is the one that `_request_lock`
names. -/
structure Process (P T : Type) where
  pid : P
  current : Option ℕ
  closed : Bool
  lock : ℕ
  locks : ℕ → Lock T
  thread : T → Place
  log : List Returned

/-- The connections of all processes, and the processes. -/
structure System (P T : Type) where
  links : List Link
  process : P → Option (Process P T)

variable {P T : Type}

def System.setLink (s : System P T) (conn : ℕ) (l : Link) : System P T :=
  { s with links := s.links.set conn l }

def Process.new (p : P) : Process P T := ⟨p, none, false, 0, fun _ => .free, fun _ => .idle, []⟩

/-- The child starts with the object as it is, its locks included; of the threads only the one that
forks is copied. -/
def Process.child (c : Process P T) : Process P T :=
  { c with thread := fun _ => .idle, log := [] }

/-- What the thread that is in `_request` sees. -/
def Process.places (c : Process P T) (t : T) : Control.Place := (c.thread t).inRequest

inductive Event (P T : Type) where
  | wants (p : P) (t : T)
  | forks (p q : P)
  | other

section Steps
variable [DecidableEq P] [DecidableEq T]

/-- One process, which has no client of another. -/
def System.new (p : P) : System P T := ⟨[], Function.update (fun _ => none) p (some (.new p))⟩

def System.set (s : System P T) (p : P) (c : Process P T) : System P T :=
  { s with process := Function.update s.process p (some c) }

def Process.at (c : Process P T) (t : T) (place : Place) : Process P T :=
  { c with thread := Function.update c.thread t place }

/-- The client as a thread in `_request` finds it. -/
def System.view (s : System P T) (c : Process P T) (t : T) (place : Control.Place) : Client T where
  links := s.links
  current := c.current
  closed := c.closed
  holder := some t
  thread := Function.update (fun _ => .idle) t place
  log := c.log

/-- The process after a step of a thread in `_request`; one that leaves releases its lock. -/
def Process.after (c : Process P T) (t : T) (lock : ℕ) (s : Client T) : Process P T :=
  match s.thread t with
  | .idle => { c with
      current := s.current
      closed := s.closed
      locks := Function.update c.locks lock (c.locks lock).release
      thread := Function.update c.thread t .idle
      log := s.log }
  | place => { c with
      current := s.current
      closed := s.closed
      thread := Function.update c.thread t (.inside lock place)
      log := s.log }

variable (text : JsonText)

/-- One step of a thread of a process, or of the server of a connection. When a connection is shut
down that another process still uses, the sends and reads of that one fail, as they can anyway. -/
inductive Step (s : System P T) : Event P T → System P T → Prop
  | want (p : P) (t : T) (c : Process P T) (message : Option Message) (hp : s.process p = some c)
    (hplace : c.thread t = .idle) :
    Step s (.wants p t) (s.set p (c.at t (.waiting message c.lock)))
  | enter (p : P) (t : T) (c : Process P T) (message : Message) (lock : ℕ) (l : Lock T)
    (hp : s.process p = some c) (hplace : c.thread t = .waiting (some message) lock)
    (hlock : (c.locks lock).acquire t = some l) :
    Step s .other (s.set p { c.at t (.inside lock (.entered message)) with
      locks := Function.update c.locks lock l })
  | close (p : P) (t : T) (c : Process P T) (lock : ℕ) (l : Lock T) (hp : s.process p = some c)
    (hplace : c.thread t = .waiting none lock) (hlock : (c.locks lock).acquire t = some l) :
    Step s .other (s.set p { c.at t .idle with current := none, closed := true })
  /-- `_after_fork_if_needed`, where it is needed. -/
  | afterFork (p : P) (t : T) (c : Process P T) (message : Message) (lock : ℕ)
    (hp : s.process p = some c) (hplace : c.thread t = .inside lock (.entered message))
    (hpid : c.pid ≠ p) :
    Step s .other (s.set p { c with
      pid := p
      current := none
      closed := false
      lock := c.lock + 1 })
  | request (p : P) (t : T) (c : Process P T) (lock : ℕ) (place : Control.Place) (c' : Client T)
    (hp : s.process p = some c) (hplace : c.thread t = .inside lock place)
    (hpid : ∀ message, place = .entered message → c.pid = p)
    (hstep : Control.Step text (s.view c t place) (some t) c') :
    Step s .other ({ s with links := c'.links }.set p (c.after t lock c'))
  | fork (p q : P) (t : T) (c : Process P T) (hp : s.process p = some c)
    (hplace : c.thread t = .idle) (hq : s.process q = none) :
    Step s (.forks p q) (s.set q c.child)
  | serve (conn : ℕ) (l : Link) (answer : Option Answer) (hl : s.links[conn]? = some l)
    (hpending : l.Pending)
    (hanswer : ∀ a ∈ answer, a.start = l.parsed ∧ a.stop = l.frameEnd) :
    Step s .other (s.setLink conn
      { l with parsed := l.frameEnd, answers := l.answers ++ answer.toList })

end Steps

/-! ## Who guards the client -/

/-- The threads of the process all use the lock that the client has now. -/
def Process.Guarded (p : P) (c : Process P T) : Prop :=
  c.pid = p ∧ ∀ t, ∀ lock ∈ (c.thread t).lock?, lock = c.lock

/-- A thread begins a call while the others are in none, unless the lock guards the client: after a
fork the first request has to be over before the threads of the child share the client. -/
def System.Allows (s : System P T) : Event P T → Prop
  | .wants p _ => ∀ c, s.process p = some c → c.Guarded p ∨ ∀ t, c.thread t = .idle
  | .forks .. | .other => True

section Careful
variable [DecidableEq P] [DecidableEq T] {text : JsonText} {s s' : System P T}

/-- A step that keeps to this. -/
def Careful (text : JsonText) (s : System P T) (e : Event P T) (s' : System P T) : Prop :=
  s.Allows e ∧ Step text s e s'

theorem Careful.alone {p : P} {t : T} {c : Process P T} (hp : s.process p = some c)
    (hidle : ∀ u, c.thread u = .idle) (h : Step text s (.wants p t) s') :
    Careful text s (.wants p t) s' := by
  refine ⟨fun d hd => .inr ?_, h⟩
  cases hp.symm.trans hd
  exact hidle

theorem Careful.fork {p q : P} (h : Step text s (.forks p q) s') :
    Careful text s (.forks p q) s' := ⟨trivial, h⟩

theorem Careful.other (h : Step text s .other s') : Careful text s .other s' := ⟨trivial, h⟩

end Careful

end Npb.Mstore.Control.Forks
