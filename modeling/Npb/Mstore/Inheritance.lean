import Npb.Mstore.Forks
import Npb.Mstore.Holding

/-! # Responses across forks

While the lock of each process guards its client, a response that a process returns was decoded
from the answer to the frame of that same request, over a connection that no other process reads
(`forked_responses_match`). A child that is forked while a thread is in a request gets past the lock
it inherits only with a thread that has the ident of that one (`forked_inside_waits`). -/

namespace Npb.Mstore.Control.Forks
set_option autoImplicit false

variable {P T : Type}

/-! ## One process -/

/-- The client of a process, with the holder of the lock that guards it. -/
def Process.client (c : Process P T) (links : List Link) (holder : Option T) : Client T :=
  ⟨links, c.current, c.closed, holder, c.places, c.log⟩

/-- The connections that the process is on or has a response from. -/
def Process.Uses (c : Process P T) (conn : ℕ) : Prop :=
  c.current = some conn ∨ ∃ r ∈ c.log, r.conn = conn

/-- A thread in `_request` holds its lock. -/
structure Process.Locked (c : Process P T) : Prop where
  held : ∀ t lock place, c.thread t = .inside lock place →
    (∃ count, c.locks lock = .held t (count + 1)) ∧ place ≠ .idle
  bound : ∀ t, ∀ lock ∈ (c.thread t).lock?, lock ≤ c.lock
  unused : ∀ lock, c.lock < lock → c.locks lock = .free

/-- What holds of each process. In one that has not noticed the fork there is at most one thread in
a call, which has just begun a request. -/
structure Process.Inv (text : JsonText) (links : List Link) (p : P) (c : Process P T) : Prop where
  locked : c.Locked
  guarded : c.Guarded p ∨ ∃ t, ∀ u, u ≠ t → c.thread u = .idle
  stale : c.pid ≠ p → c.log = [] ∧ ∀ t lock place, c.thread t = .inside lock place →
    ∃ message, place = .entered message
  fresh : c.pid = p → ∃ holder, Control.Inv text (c.client links holder) ∧
    ∀ t, holder = some t ↔ c.places t ≠ .idle

section Processes
variable {c : Process P T} {t u : T} {lock : ℕ} {place : Control.Place}

theorem Process.places_of_inside (h : c.thread t = .inside lock place) : c.places t = place := by
  rw [Process.places, h]
  rfl

theorem Process.inside_of_places (h : c.places t ≠ .idle) :
    ∃ lock place, c.thread t = .inside lock place := by
  unfold Process.places at h
  cases hplace : c.thread t with
  | inside lock place => exact ⟨lock, place, rfl⟩
  | idle | waiting =>
    rw [hplace] at h
    exact absurd rfl h

theorem Process.Locked.same (h : c.Locked) {place' : Control.Place}
    (ht : c.thread t = .inside lock place) (hu : c.thread u = .inside lock place') : t = u := by
  obtain ⟨count, hlock⟩ := (h.held t lock place ht).1
  obtain ⟨count', hlock'⟩ := (h.held u lock place' hu).1
  rw [hlock'] at hlock
  cases hlock
  rfl

theorem Process.Locked.new (p : P) : (Process.new p : Process P T).Locked where
  held t lock place ht := by cases ht
  bound t lock ht := by cases ht
  unused lock _ := rfl

theorem Process.Locked.afterFork (h : c.Locked) (p : P) : Process.Locked { c with
    pid := p
    current := none
    closed := false
    lock := c.lock + 1 } where
  held := h.held
  bound u lock hu := (h.bound u lock hu).trans (Nat.le_succ _)
  unused lock hlt := h.unused lock (Nat.lt_of_succ_lt hlt)

theorem Process.Locked.child (h : c.Locked) : c.child.Locked where
  held u lock place hu := by cases hu
  bound u lock hu := by cases hu
  unused := h.unused

section Inv
variable {text : JsonText} {links : List Link} {p : P}

/-- A thread in a call has the others guarded against, or is alone. -/
theorem Process.Inv.alone (h : c.Inv text links p) (ht : c.thread t ≠ .idle) :
    c.Guarded p ∨ ∀ u, u ≠ t → c.thread u = .idle := by
  refine h.guarded.imp_right ?_
  rintro ⟨v, hv⟩
  have htv : t = v := by
    by_contra hne
    exact ht (hv t hne)
  rw [htv]
  exact hv

/-- Only one thread is in `_request`. -/
theorem Process.Inv.only (h : c.Inv text links p) (ht : c.thread t = .inside lock place)
    (hu : u ≠ t) : c.places u = .idle := by
  obtain hguarded | halone := h.alone (t := t) (by rw [ht]; exact Place.noConfusion)
  · by_contra hplaces
    obtain ⟨lock', place', hin⟩ := Process.inside_of_places hplaces
    have hlock : lock = c.lock := hguarded.2 t lock (by rw [ht]; rfl)
    have hlock' : lock' = c.lock := hguarded.2 u lock' (by rw [hin]; rfl)
    rw [hlock] at ht
    rw [hlock'] at hin
    exact hu (h.locked.same hin ht)
  · rw [Process.places, halone u hu]
    rfl

/-- Nobody is in `_request` while a thread gets the lock that it waits for. -/
theorem Process.Inv.none_inside [DecidableEq T] (h : c.Inv text links p)
    {message : Option Message} {l : Lock T} (ht : c.thread t = .waiting message lock)
    (hget : (c.locks lock).acquire t = some l) (u : T) :
    c.places u = .idle := by
  by_contra hplaces
  obtain ⟨lock', place', hin⟩ := Process.inside_of_places hplaces
  have hne : u ≠ t := by
    rintro rfl
    rw [ht] at hin
    cases hin
  obtain hguarded | halone := h.alone (t := t) (by rw [ht]; exact Place.noConfusion)
  · have hlock : lock = c.lock := hguarded.2 t lock (by rw [ht]; rfl)
    have hlock' : lock' = c.lock := hguarded.2 u lock' (by rw [hin]; rfl)
    obtain ⟨count, hheld⟩ := (h.locked.held u lock' place' hin).1
    rw [hlock', ← hlock] at hheld
    rw [hheld] at hget
    exact hne (Lock.acquire_held hget)
  · rw [halone u hne] at hin
    cases hin

/-- While nobody is in `_request`, nobody holds the client. -/
theorem Process.Inv.free (h : c.Inv text links p) (hpid : c.pid = p)
    (hnone : ∀ u, c.places u = .idle) : Control.Inv text (c.client links none) := by
  obtain ⟨holder, hinv, hholder⟩ := h.fresh hpid
  cases holder with
  | none => exact hinv
  | some u => exact absurd (hnone u) ((hholder u).mp rfl)

theorem Process.Inv.child (h : c.Inv text links p) (t : T) {q : P} (hpid : c.pid ≠ q) :
    c.child.Inv text links q where
  locked := h.locked.child
  guarded := .inr ⟨t, fun _ _ => rfl⟩
  stale _ := ⟨rfl, fun u lock place hu => by cases hu⟩
  fresh hpid' := absurd hpid' hpid

variable [DecidableEq T]

/-- The thread goes on with the lock it has, or leaves. -/
theorem Process.Inv.still (h : c.Inv text links p) (ht : c.thread t ≠ .idle) {c' : Process P T}
    {place' : Place} (hpid : c'.pid = c.pid) (hlock : c'.lock = c.lock)
    (hthread : c'.thread = Function.update c.thread t place')
    (hsame : ∀ lock ∈ place'.lock?, lock ∈ (c.thread t).lock?) :
    c'.Guarded p ∨ ∃ t, ∀ u, u ≠ t → c'.thread u = .idle := by
  obtain ⟨hp, hguarded⟩ | halone := h.alone ht
  · refine .inl ⟨hpid.trans hp, fun u lock hu => ?_⟩
    rw [hthread] at hu
    rw [hlock]
    by_cases hut : u = t
    · rw [hut, Function.update_self] at hu
      exact hguarded t lock (hsame lock hu)
    · rw [Function.update_of_ne hut] at hu
      exact hguarded u lock hu
  · refine .inr ⟨t, fun u hu => ?_⟩
    rw [hthread, Function.update_of_ne hu]
    exact halone u hu

end Inv
end Processes

/-! ## Steps of a process -/

section Steps
variable [DecidableEq T] {c : Process P T} {t : T} {text : JsonText} {links : List Link} {p : P}

theorem Process.places_update {c' : Process P T} {place : Place}
    (hthread : c'.thread = Function.update c.thread t place) :
    c'.places = Function.update c.places t place.inRequest := by
  funext u
  unfold Process.places
  rw [hthread]
  by_cases hu : u = t
  · rw [hu, Function.update_self, Function.update_self]
  · rw [Function.update_of_ne hu, Function.update_of_ne hu]

theorem Process.places_same {c' : Process P T} {place : Place}
    (hthread : c'.thread = Function.update c.thread t place) (ht : c.places t = place.inRequest) :
    c'.places = c.places := by
  rw [Process.places_update hthread, ← ht, Function.update_eq_self]

/-- A thread that is in `_request` after a step of one that is not was there before. -/
theorem Process.inside_of_update {c' : Process P T} {place : Place}
    (hthread : c'.thread = Function.update c.thread t place)
    (hplace : ∀ lock place', place ≠ .inside lock place') {u : T} {lock : ℕ}
    {place' : Control.Place} (hu : c'.thread u = .inside lock place') :
    c.thread u = .inside lock place' := by
  rw [hthread] at hu
  by_cases hut : u = t
  · rw [hut, Function.update_self] at hu
    exact absurd hu (hplace lock place')
  · rwa [Function.update_of_ne hut] at hu

/-- A thread goes on, and perhaps takes its lock or gives it back. -/
theorem Process.Locked.update (h : c.Locked) (t : T) (place : Place) {c' : Process P T}
    (hthread : c'.thread = Function.update c.thread t place) (hlock : c'.lock = c.lock)
    (hplace : ∀ lock place', place = .inside lock place' →
      (∃ count, c'.locks lock = .held t (count + 1)) ∧ place' ≠ .idle)
    (hbound : ∀ lock ∈ place.lock?, lock ≤ c.lock)
    (hothers : ∀ u lock place', u ≠ t → c.thread u = .inside lock place' →
      c'.locks lock = c.locks lock)
    (hunused : ∀ lock, c.lock < lock → c'.locks lock = c.locks lock) : c'.Locked where
  held u lock place' hu := by
    rw [hthread] at hu
    by_cases hut : u = t
    · rw [hut, Function.update_self] at hu
      rw [hut]
      exact hplace lock place' hu
    · rw [Function.update_of_ne hut] at hu
      rw [hothers u lock place' hut hu]
      exact h.held u lock place' hu
  bound u lock hu := by
    rw [hthread] at hu
    rw [hlock]
    by_cases hut : u = t
    · rw [hut, Function.update_self] at hu
      exact hbound lock hu
    · rw [Function.update_of_ne hut] at hu
      exact h.bound u lock hu
  unused lock hlt := by
    rw [hlock] at hlt
    rw [hunused lock hlt]
    exact h.unused lock hlt

theorem Process.Locked.want (h : c.Locked) (t : T) (message : Option Message) :
    (c.at t (.waiting message c.lock)).Locked := by
  refine h.update t (.waiting message c.lock) rfl rfl ?_ ?_ (fun _ _ _ _ _ => rfl) fun _ _ => rfl
  · intro lock place' hin
    cases hin
  · rintro lock ⟨⟩
    exact le_rfl

theorem Process.Locked.close (h : c.Locked) (t : T) :
    Process.Locked { c.at t .idle with current := none, closed := true } := by
  refine h.update t .idle rfl rfl ?_ ?_ (fun _ _ _ _ _ => rfl) fun _ _ => rfl
  · intro lock place' hin
    cases hin
  · intro lock hin
    cases hin

theorem Process.Locked.enter (h : c.Locked) {message : Option Message} {lock : ℕ}
    {place : Control.Place} {l : Lock T} (ht : c.thread t = .waiting message lock)
    (hget : (c.locks lock).acquire t = some l) (hplace : place ≠ .idle) :
    Process.Locked { c.at t (.inside lock place) with
      locks := Function.update c.locks lock l } := by
  have hle : lock ≤ c.lock := h.bound t lock (by rw [ht]; rfl)
  refine h.update t (.inside lock place) rfl rfl ?_ ?_ ?_ ?_
  · intro lock' place' hin
    cases hin
    obtain ⟨count, hheld⟩ := Lock.acquired hget
    exact ⟨⟨count, (Function.update_self ..).trans hheld⟩, hplace⟩
  · rintro lock' ⟨⟩
    exact hle
  · intro u lock' place' hut hu
    apply Function.update_of_ne
    rintro rfl
    obtain ⟨count, hheld⟩ := (h.held u lock' place' hu).1
    rw [hheld] at hget
    exact hut (Lock.acquire_held hget)
  · intro lock' hlt
    exact Function.update_of_ne (by omega) ..

section After
variable {lock : ℕ} {place : Control.Place} {s : Client T}

theorem Process.after_idle (hs : s.thread t = .idle) : c.after t lock s = { c with
    current := s.current
    closed := s.closed
    locks := Function.update c.locks lock (c.locks lock).release
    thread := Function.update c.thread t .idle
    log := s.log } := by
  unfold Process.after
  rw [hs]

theorem Process.after_inside (hs : s.thread t ≠ .idle) : c.after t lock s = { c with
    current := s.current
    closed := s.closed
    thread := Function.update c.thread t (.inside lock (s.thread t))
    log := s.log } := by
  unfold Process.after
  split
  · exact absurd ‹_› hs
  · rfl

/-- What a step in `_request` does to the process, whether the thread leaves or not. -/
theorem Process.after_cases (c : Process P T) (t : T) (lock : ℕ) (s : Client T) :
    (c.after t lock s).pid = c.pid ∧ (c.after t lock s).lock = c.lock ∧
      (c.after t lock s).client s.links s.holder =
        { s with thread := Function.update c.places t (s.thread t) } ∧
      ∃ place : Place, (c.after t lock s).thread = Function.update c.thread t place ∧
        ∀ lock' ∈ place.lock?, lock' = lock := by
  by_cases hs : s.thread t = .idle
  · rw [Process.after_idle hs, hs]
    refine ⟨rfl, rfl, ?_, .idle, rfl, by simp [Place.lock?]⟩
    rw [Process.client, Process.places_update rfl]
    rfl
  · rw [Process.after_inside hs]
    refine ⟨rfl, rfl, ?_, .inside lock (s.thread t), rfl, by simp [Place.lock?]⟩
    rw [Process.client, Process.places_update rfl]
    rfl

theorem Process.Locked.after (h : c.Locked) (ht : c.thread t = .inside lock place) :
    (c.after t lock s).Locked := by
  have hle : lock ≤ c.lock := h.bound t lock (by rw [ht]; rfl)
  by_cases hs : s.thread t = .idle
  · rw [Process.after_idle hs]
    refine h.update t .idle rfl rfl ?_ ?_ ?_ ?_
    · intro lock' place' hin
      cases hin
    · intro lock' hin
      cases hin
    · intro u lock' place' hut hu
      apply Function.update_of_ne
      rintro rfl
      exact hut (h.same hu ht)
    · intro lock' hlt
      exact Function.update_of_ne (by omega) ..
  · rw [Process.after_inside hs]
    refine h.update t (.inside lock (s.thread t)) rfl rfl ?_ ?_ ?_ ?_
    · intro lock' place' hin
      cases hin
      exact ⟨(h.held t lock place ht).1, hs⟩
    · rintro lock' ⟨⟩
      exact hle
    · intro u lock' place' _ _
      rfl
    · intro lock' _
      rfl

end After

/-! ## What each step preserves -/

theorem Process.Inv.want (h : c.Inv text links p)
    (hallow : c.Guarded p ∨ ∀ u, c.thread u = .idle) (ht : c.thread t = .idle)
    (message : Option Message) : (c.at t (.waiting message c.lock)).Inv text links p := by
  have hplaces : (c.at t (.waiting message c.lock)).places = c.places := by
    apply Process.places_same (t := t) rfl
    rw [Process.places, ht]
    rfl
  refine ⟨h.locked.want t message, ?_, fun hpid => ?_, fun hpid => ?_⟩
  · obtain ⟨hp, hguarded⟩ | hidle := hallow
    · refine .inl ⟨hp, fun u lock hu => ?_⟩
      have hu : lock ∈ (Function.update c.thread t (.waiting message c.lock) u).lock? := hu
      by_cases hut : u = t
      · rw [hut, Function.update_self] at hu
        cases hu
        rfl
      · rw [Function.update_of_ne hut] at hu
        exact hguarded u lock hu
    · refine .inr ⟨t, fun u hu => ?_⟩
      show Function.update c.thread t _ u = _
      rw [Function.update_of_ne hu]
      exact hidle u
  · obtain ⟨hlog, hinside⟩ := h.stale hpid
    refine ⟨hlog, fun u lock place' hu => hinside u lock place' ?_⟩
    exact Process.inside_of_update (t := t) rfl (fun _ _ => Place.noConfusion) hu
  · obtain ⟨holder, hinv, hholder⟩ := h.fresh hpid
    refine ⟨holder, ?_, ?_⟩
    · rw [Process.client, hplaces]
      exact hinv
    · rw [hplaces]
      exact hholder

theorem Process.Inv.enter (h : c.Inv text links p) {message : Message} {lock : ℕ} {l : Lock T}
    (ht : c.thread t = .waiting (some message) lock)
    (hget : (c.locks lock).acquire t = some l) :
    Process.Inv text links p { c.at t (.inside lock (.entered message)) with
      locks := Function.update c.locks lock l } := by
  have hne : c.thread t ≠ .idle := by
    rw [ht]
    exact Place.noConfusion
  have hnone := h.none_inside ht hget
  refine ⟨h.locked.enter ht hget Control.Place.noConfusion, ?_, fun hpid => ?_, fun hpid => ?_⟩
  · refine h.still hne rfl rfl rfl fun lock' hlock' => ?_
    rw [ht]
    exact hlock'
  · obtain ⟨hlog, -⟩ := h.stale hpid
    refine ⟨hlog, fun u lock' place' hu => ?_⟩
    have hu : Function.update c.thread t (.inside lock (.entered message)) u =
      .inside lock' place' := hu
    by_cases hut : u = t
    · rw [hut, Function.update_self] at hu
      cases hu
      exact ⟨message, rfl⟩
    · rw [Function.update_of_ne hut] at hu
      have hplaces := hnone u
      rw [Process.places_of_inside hu] at hplaces
      exact absurd hplaces (h.locked.held u lock' place' hu).2
  · have hstep := (h.free hpid hnone).step (.enter t message rfl (hnone t))
    refine ⟨some t, ?_, fun u => ?_⟩
    · rw [Process.client, Process.places_update (c := c) (t := t) rfl]
      exact hstep
    · rw [Process.places_update (c := c) (t := t) rfl]
      by_cases hut : u = t
      · rw [hut, Function.update_self]
        simp [Place.inRequest]
      · rw [Function.update_of_ne hut, hnone u]
        simp [Ne.symm hut]

theorem Process.Inv.close (h : c.Inv text links p) {lock : ℕ} {l : Lock T}
    (ht : c.thread t = .waiting none lock) (hget : (c.locks lock).acquire t = some l) :
    Process.Inv text links p { c.at t .idle with current := none, closed := true } := by
  have hne : c.thread t ≠ .idle := by
    rw [ht]
    exact Place.noConfusion
  have hnone := h.none_inside ht hget
  have hplaces : Process.places { c.at t .idle with current := none, closed := true } =
      c.places := by
    apply Process.places_same (t := t) rfl
    rw [Process.places, ht]
    rfl
  refine ⟨h.locked.close t, ?_, fun hpid => ?_, fun hpid => ?_⟩
  · refine h.still hne rfl rfl rfl fun lock' hlock' => ?_
    cases hlock'
  · obtain ⟨hlog, hinside⟩ := h.stale hpid
    refine ⟨hlog, fun u lock' place' hu => hinside u lock' place' ?_⟩
    exact Process.inside_of_update (t := t) rfl (fun _ _ => Place.noConfusion) hu
  · refine ⟨none, ?_, fun u => ?_⟩
    · rw [Process.client, hplaces]
      exact (h.free hpid hnone).step (.close t rfl)
    · rw [hplaces, hnone u]
      simp

/-- The first request of a child finds out that it is one: it has the client for itself. -/
theorem Process.Inv.afterFork (h : c.Inv text links p) (hordered : ∀ l ∈ links, l.Ordered)
    {message : Message} {lock : ℕ} (ht : c.thread t = .inside lock (.entered message))
    (hpid : c.pid ≠ p) : Process.Inv text links p { c with
      pid := p
      current := none
      closed := false
      lock := c.lock + 1 } := by
  have hne : c.thread t ≠ .idle := by
    rw [ht]
    exact Place.noConfusion
  have halone : ∀ u, u ≠ t → c.thread u = .idle :=
    (h.alone hne).resolve_left fun hguarded => hpid hguarded.1
  have hplaces : ∀ u, u ≠ t → c.places u = .idle := by
    intro u hu
    rw [Process.places, halone u hu]
    rfl
  have hlog : c.log = [] := (h.stale hpid).1
  refine ⟨h.locked.afterFork p, .inr ⟨t, halone⟩, fun hne => absurd rfl hne, fun _ => ?_⟩
  refine ⟨some t, ⟨hordered, fun u hu => hplaces u ?_, fun hfree => ?_, fun u => ?_, ?_, ?_⟩,
    fun u => ?_⟩
  · rintro rfl
    exact hu rfl
  · cases hfree
  · show Client.Busy text _ (c.places u)
    by_cases hu : u = t
    · rw [hu, Process.places_of_inside ht]
      intro conn hconn
      cases hconn
    · rw [hplaces u hu]
      trivial
  · show ∀ r ∈ c.log, _
    rw [hlog]
    exact fun r hr => absurd hr List.not_mem_nil
  · show c.log.Pairwise _
    rw [hlog]
    exact .nil
  · show some t = some u ↔ c.places u ≠ .idle
    by_cases hu : u = t
    · rw [hu, Process.places_of_inside ht]
      simp
    · rw [hplaces u hu]
      simp [Ne.symm hu]

/-- What a step in `_request` leaves of the process and of the connections. -/
theorem Process.Inv.request (h : c.Inv text links p) {lock : ℕ} {place : Control.Place}
    (ht : c.thread t = .inside lock place)
    (hpid : ∀ message, place = .entered message → c.pid = p) {s : Client T}
    (hstep : Control.Step text ⟨links, c.current, c.closed, some t,
      Function.update (fun _ => .idle) t place, c.log⟩ (some t) s) :
    c.pid = p ∧ (c.after t lock s).Inv text s.links p ∧ Grown c.current links s.links ∧
      (∀ l ∈ s.links, l.Ordered) ∧
      ∀ conn, (c.after t lock s).Uses conn → c.Uses conn ∨ conn = links.length := by
  have hne : c.thread t ≠ .idle := by
    rw [ht]
    exact Place.noConfusion
  have hp : c.pid = p := by
    by_contra hstale
    obtain ⟨message, rfl⟩ := (h.stale hstale).2 t lock place ht
    exact hstale (hpid message rfl)
  have hplaces : c.places = Function.update (fun _ => .idle) t place := by
    funext u
    by_cases hu : u = t
    · rw [hu, Function.update_self, Process.places_of_inside ht]
    · rw [Function.update_of_ne hu, h.only ht hu]
  obtain ⟨holder, hinv, hholder⟩ := h.fresh hp
  have hself : holder = some t := by
    rw [hholder, Process.places_of_inside ht]
    exact (h.locked.held t lock place ht).2
  rw [hself, Process.client, hplaces] at hinv
  have hacts := hstep.acts hinv rfl
  have hnext := hinv.step hstep
  obtain ⟨hpid', hlock', hclient, place', hthread, hsame⟩ := c.after_cases t lock s
  have hstill : Function.update c.places t (s.thread t) = s.thread := by
    funext u
    by_cases hu : u = t
    · rw [hu, Function.update_self]
    · rw [Function.update_of_ne hu, hplaces, hacts.others u hu]
  rw [hstill] at hclient
  have hthread' : (c.after t lock s).places = s.thread := congrArg Client.thread hclient
  refine ⟨hp, ⟨h.locked.after ht, ?_, fun hstale => absurd (hpid'.trans hp) hstale, fun _ => ?_⟩,
    hacts.links, hnext.ordered, fun conn huses => ?_⟩
  · refine h.still hne hpid' hlock' hthread fun lock' hin => ?_
    rw [hsame lock' hin, ht]
    rfl
  · refine ⟨s.holder, ?_, fun u => ?_⟩
    · rw [hclient]
      exact hnext
    · rw [hthread']
      by_cases hu : u = t
      · rw [hu]
        obtain ⟨hidle, hfree⟩ | ⟨hbusy, hheld⟩ := hacts.holder
        · simp [hidle, hfree]
        · simp [hbusy, hheld]
      · have hidle : s.thread u = .idle := by
          rw [hacts.others u hu]
          show Function.update (fun _ => Control.Place.idle) t place u = _
          rw [Function.update_of_ne hu]
        obtain ⟨-, hfree⟩ | ⟨-, hheld⟩ := hacts.holder
        · simp [hidle, hfree]
        · simp [hidle, hheld, Ne.symm hu]
  · have hafter : ((c.after t lock s).client s.links s.holder).Uses conn := huses
    rw [hclient] at hafter
    exact hacts.uses conn hafter

end Steps

/-! ## Steps of others -/

section Others
variable {c : Process P T} {text : JsonText} {links links' : List Link} {p : P}

theorem Process.Inv.uses_lt (h : c.Inv text links p) (hpid : c.pid = p) {conn : ℕ}
    (huses : c.Uses conn) : conn < links.length := by
  obtain ⟨holder, hinv, hholder⟩ := h.fresh hpid
  exact hinv.uses_lt (fun t ht => (hholder t).mp ht) huses

theorem Process.Inv.elsewhere (h : c.Inv text links p) (hordered : ∀ l ∈ links', l.Ordered)
    (hsame : c.pid = p → ∀ conn, c.Uses conn → links'[conn]? = links[conn]?)
    (hgrows : ∀ (conn : ℕ) (l : Link), links[conn]? = some l →
      ∃ l', links'[conn]? = some l' ∧ l.Grows l') : c.Inv text links' p where
  locked := h.locked
  guarded := h.guarded
  stale := h.stale
  fresh hpid := by
    obtain ⟨holder, hinv, hholder⟩ := h.fresh hpid
    refine ⟨holder, ?_, hholder⟩
    exact hinv.elsewhere hordered (fun conn hcurrent => hsame hpid conn (.inl hcurrent)) hgrows

theorem Process.Inv.serve (h : c.Inv text links p) {conn : ℕ} {l : Link}
    {answer : Option Answer} (hl : links[conn]? = some l) (hpending : l.Pending)
    (hanswer : ∀ a ∈ answer, a.start = l.parsed ∧ a.stop = l.frameEnd) :
    c.Inv text (links.set conn
      { l with parsed := l.frameEnd, answers := l.answers ++ answer.toList }) p where
  locked := h.locked
  guarded := h.guarded
  stale := h.stale
  fresh hpid := by
    obtain ⟨holder, hinv, hholder⟩ := h.fresh hpid
    exact ⟨holder, hinv.serve hl hpending hanswer, hholder⟩

end Others

/-! ## All processes -/

/-- Two processes that know that they are themselves use different connections. -/
structure System.Inv (text : JsonText) (s : System P T) : Prop where
  ordered : ∀ l ∈ s.links, l.Ordered
  parent : ∀ p c, s.process p = some c → s.process c.pid ≠ none
  each : ∀ p c, s.process p = some c → c.Inv text s.links p
  apart : ∀ p q c d, p ≠ q → s.process p = some c → s.process q = some d → c.pid = p → d.pid = q →
    ∀ conn, c.Uses conn → ¬ d.Uses conn

section Systems
variable [DecidableEq P] {text : JsonText} {s : System P T} {p : P} {c c' : Process P T}

theorem System.set_self : (s.set p c).process p = some c := Function.update_self ..

theorem System.set_ne {q : P} (hq : q ≠ p) : (s.set p c).process q = s.process q :=
  Function.update_of_ne hq ..

theorem System.set_ne_none {q : P} (h : s.process q ≠ none) : (s.set p c).process q ≠ none := by
  by_cases hq : q = p
  · rw [hq, System.set_self]
    exact Option.some_ne_none c
  · rwa [System.set_ne hq]

theorem System.Inv.set (h : s.Inv text) {links : List Link} (hordered : ∀ l ∈ links, l.Ordered)
    (hparent : c.pid = p ∨ s.process c.pid ≠ none) (hinv : c.Inv text links p)
    (hothers : ∀ q d, q ≠ p → s.process q = some d → d.Inv text links q)
    (happart : c.pid = p → ∀ q d, q ≠ p → s.process q = some d → d.pid = q →
      ∀ conn, c.Uses conn → ¬ d.Uses conn) :
    ({ s with links := links }.set p c).Inv text where
  ordered := hordered
  parent q d hq := by
    by_cases hqp : q = p
    · rw [hqp, System.set_self] at hq
      cases hq
      obtain hself | hparent := hparent
      · rw [hself, System.set_self]
        exact Option.some_ne_none c
      · exact System.set_ne_none hparent
    · rw [System.set_ne hqp] at hq
      exact System.set_ne_none (h.parent q d hq)
  each q d hq := by
    by_cases hqp : q = p
    · rw [hqp, System.set_self] at hq
      cases hq
      rw [hqp]
      exact hinv
    · rw [System.set_ne hqp] at hq
      exact hothers q d hqp hq
  apart q r d e hne hq hr hdq her conn hd he := by
    by_cases hqp : q = p
    · have hrp : r ≠ p := fun hrp => hne (hqp.trans hrp.symm)
      rw [hqp, System.set_self] at hq
      rw [System.set_ne hrp] at hr
      cases hq
      exact happart (hdq.trans hqp) r e hrp hr her conn hd he
    · rw [System.set_ne hqp] at hq
      by_cases hrp : r = p
      · rw [hrp, System.set_self] at hr
        cases hr
        exact happart (her.trans hrp) q d hqp hq hdq conn he hd
      · rw [System.set_ne hrp] at hr
        exact h.apart q r d e hne hq hr hdq her conn hd he

theorem System.Inv.go (h : s.Inv text) (hp : s.process p = some c) (hpid : c'.pid = c.pid)
    (hinv : c'.Inv text s.links p) (huses : ∀ conn, c'.Uses conn → c.Uses conn) :
    (s.set p c').Inv text := by
  refine h.set h.ordered (.inr ?_) hinv (fun q d _ => h.each q d)
    fun hself q d hq hd hdq conn hc => ?_
  · rw [hpid]
    exact h.parent p c hp
  · exact h.apart p q c d hq.symm hp hd (hpid.symm.trans hself) hdq conn (huses conn hc)

theorem System.process_new {q : P} (h : (System.new p).process q = some c) :
    q = p ∧ c = .new p := by
  have h : Function.update (fun _ => none) p (some (.new p)) q = some c := h
  by_cases hqp : q = p
  · rw [hqp, Function.update_self] at h
    cases h
    exact ⟨hqp, rfl⟩
  · rw [Function.update_of_ne hqp] at h
    cases h

theorem System.Inv.new (text : JsonText) (p : P) : (System.new p : System P T).Inv text := by
  refine ⟨fun l hl => absurd hl List.not_mem_nil, fun q d hq => ?_, fun q d hq => ?_, ?_⟩
  · obtain ⟨-, rfl⟩ := System.process_new hq
    show Function.update (fun _ => none) p (some (Process.new p)) p ≠ none
    rw [Function.update_self]
    exact Option.some_ne_none _
  · obtain ⟨rfl, rfl⟩ := System.process_new hq
    refine ⟨.new q, .inl ⟨rfl, fun t lock ht => by cases ht⟩, fun hne => absurd rfl hne,
      fun _ => ?_⟩
    refine ⟨none, .new text, fun t => ?_⟩
    simp [Process.places, Process.new, Place.inRequest]
  · intro q r d e hne hq hr
    exact absurd ((System.process_new hq).1.trans (System.process_new hr).1.symm) hne

variable [DecidableEq T]

theorem System.Inv.step (h : s.Inv text) {e : Event P T} {s' : System P T} (hallow : s.Allows e)
    (hstep : Step text s e s') : s'.Inv text := by
  cases hstep with
  | want p t c message hp hplace =>
    exact h.go hp rfl ((h.each p c hp).want (hallow c hp) hplace message) fun _ => id
  | enter p t c message lock l hp hplace hlock =>
    exact h.go hp rfl ((h.each p c hp).enter hplace hlock) fun _ => id
  | close p t c lock l hp hplace hlock =>
    refine h.go hp rfl ((h.each p c hp).close hplace hlock) fun conn huses => ?_
    exact huses.imp_left fun hcurrent => by cases hcurrent
  | afterFork p t c message lock hp hplace hpid =>
    have hc := h.each p c hp
    refine h.set h.ordered (.inl rfl) (hc.afterFork h.ordered hplace hpid)
      (fun q d _ => h.each q d) ?_
    intro _ q d _ _ _ conn huses
    obtain hcurrent | ⟨r, hr, -⟩ := huses
    · cases hcurrent
    · rw [show c.log = [] from (hc.stale hpid).1] at hr
      cases hr
  | request p t c lock place c' hp hplace hpid hstep =>
    obtain ⟨hself, hinv, hgrown, hordered, huses⟩ := (h.each p c hp).request hplace hpid hstep
    have hpid' : (c.after t lock c').pid = c.pid := (c.after_cases t lock c').1
    have hapart : ∀ q d, q ≠ p → s.process q = some d → d.pid = q → ∀ conn, d.Uses conn →
        conn < s.links.length ∧ ¬ c.Uses conn := by
      intro q d hq hd hdq conn hconn
      exact ⟨(h.each q d hd).uses_lt hdq hconn, fun hc =>
        h.apart p q c d hq.symm hp hd hself hdq conn hc hconn⟩
    refine h.set hordered (.inl (hpid'.trans hself)) hinv (fun q d hq hd => ?_) ?_
    · refine (h.each q d hd).elsewhere hordered (fun hdq conn hconn => ?_)
        fun conn l => hgrown.grows
      obtain ⟨hlt, hnot⟩ := hapart q d hq hd hdq conn hconn
      exact hgrown.elsewhere hlt fun hcurrent => hnot (.inl hcurrent)
    · intro _ q d hq hd hdq conn hc hconn
      obtain ⟨hlt, hnot⟩ := hapart q d hq hd hdq conn hconn
      obtain hold | rfl := huses conn hc
      · exact hnot hold
      · exact lt_irrefl _ hlt
  | fork p q t c hp hplace hq =>
    have hpid : c.pid ≠ q := by
      rintro rfl
      exact h.parent p c hp hq
    refine h.set h.ordered (.inr (h.parent p c hp)) ((h.each p c hp).child t hpid)
      (fun r d _ => h.each r d) fun hself => absurd hself hpid
  | serve conn l answer hl hpending hanswer =>
    refine ⟨?_, h.parent, fun p c hp => (h.each p c hp).serve hl hpending hanswer, h.apart⟩
    exact ordered_set h.ordered ((h.ordered l (List.mem_of_getElem? hl)).serve hanswer rfl)

/-- In every run in which the lock guards the clients, also across forks at any time, each response
that a process has returned answers the frame of its own request, no frame is answered twice, and no
two processes have responses from one connection. -/
theorem forked_responses_match {p₀ : P} {events : List (Event P T)}
    (hrun : Run (Careful text) (System.new p₀) events s) (hp : s.process p = some c) :
    (∀ r ∈ c.log, Matches text s.links r) ∧
      (c.log.Pairwise fun r r' => r.conn = r'.conn → r.start ≠ r'.start) ∧
      ∀ q d, q ≠ p → s.process q = some d → ∀ r ∈ c.log, ∀ r' ∈ d.log, r.conn ≠ r'.conn := by
  have h : s.Inv text := hrun.invariant (fun _ _ _ h hstep => h.step hstep.1 hstep.2) (.new text p₀)
  have hc := h.each p c hp
  by_cases hpid : c.pid = p
  · obtain ⟨holder, hinv, -⟩ := hc.fresh hpid
    refine ⟨hinv.matches.1, hinv.matches.2, fun q d hq hd r hr r' hr' heq => ?_⟩
    have hdq : d.pid = q := by
      by_contra hstale
      rw [((h.each q d hd).stale hstale).1] at hr'
      cases hr'
    exact h.apart p q c d hq.symm hp hd hpid hdq r.conn (.inr ⟨r, hr, rfl⟩)
      (.inr ⟨r', hr', heq.symm⟩)
  · rw [(hc.stale hpid).1]
    simp

end Systems

/-- A process makes a request and forks, and the child makes one. -/
theorem oneFork : ∃ events, ∃ s : System ℕ ℕ, Run (Careful emptyText) (System.new 0) events s ∧
    ∃ c d, s.process 0 = some c ∧ s.process 1 = some d ∧
      c.log = [⟨[], 0, 0, 6, [], some 3⟩] ∧ d.log = [⟨[], 1, 0, 6, [], some 4⟩] := by
  have hparent := (Run.nil : Run (Careful emptyText) (System.new 0 : System ℕ ℕ) [] _)
    |>.snoc (.alone rfl (fun _ => rfl) (.want 0 0 _ (some []) rfl rfl))
    |>.snoc (.other (.enter 0 0 _ [] 0 _ rfl rfl rfl))
    |>.snoc (.other (.request 0 0 _ 0 _ _ rfl rfl (fun _ _ => rfl)
      (.connect 0 [] (.socket true) rfl rfl rfl)))
    |>.snoc (.other (.request 0 0 _ 0 _ _ rfl rfl (fun _ _ => rfl)
      (.encode 0 [] 0 _ [0, 0, 0, 2, 123, 125] rfl rfl rfl)))
    |>.snoc (.other (.request 0 0 _ 0 _ _ rfl rfl (fun _ _ => rfl)
      (.send 0 [] 0 0 6 _ _ rfl rfl (by decide) (by decide))))
    |>.snoc (.other (.serve 0 _ (some ⟨0, 6, [123, 125], some 3, by decide⟩) rfl
      (by decide) (by decide)))
    |>.snoc (.other (.request 0 0 _ 0 _ _ rfl rfl (fun _ _ => rfl)
      (.receive 0 [] 0 0 6 _ [] none _ [0, 0, 0, 2, 123, 125] rfl rfl rfl
        ⟨by decide, by decide, Nat.le_of_ble_eq_true rfl⟩)))
    |>.snoc (.other (.request 0 0 _ 0 _ _ rfl rfl (fun _ _ => rfl)
      (.finish 0 [] 0 0 6 _ _ _ [] rfl rfl rfl)))
  have hchild := hparent
    |>.snoc (.fork (.fork 0 1 0 _ rfl rfl rfl))
    |>.snoc (.alone rfl (fun _ => rfl) (.want 1 0 _ (some []) rfl rfl))
    |>.snoc (.other (.enter 1 0 _ [] 0 _ rfl rfl rfl))
    |>.snoc (.other (.afterFork 1 0 _ [] 0 rfl rfl (by decide)))
    |>.snoc (.other (.request 1 0 _ 0 _ _ rfl rfl (fun _ _ => rfl)
      (.connect 0 [] (.socket true) rfl rfl rfl)))
    |>.snoc (.other (.request 1 0 _ 0 _ _ rfl rfl (fun _ _ => rfl)
      (.encode 0 [] 1 _ [0, 0, 0, 2, 123, 125] rfl rfl rfl)))
    |>.snoc (.other (.request 1 0 _ 0 _ _ rfl rfl (fun _ _ => rfl)
      (.send 0 [] 1 0 6 _ _ rfl rfl (by decide) (by decide))))
    |>.snoc (.other (.serve 1 _ (some ⟨0, 6, [123, 125], some 4, by decide⟩) rfl
      (by decide) (by decide)))
    |>.snoc (.other (.request 1 0 _ 0 _ _ rfl rfl (fun _ _ => rfl)
      (.receive 0 [] 1 0 6 _ [] none _ [0, 0, 0, 2, 123, 125] rfl rfl rfl
        ⟨by decide, by decide, Nat.le_of_ble_eq_true rfl⟩)))
    |>.snoc (.other (.request 1 0 _ 0 _ _ rfl rfl (fun _ _ => rfl)
      (.finish 0 [] 1 0 6 _ _ _ [] rfl rfl rfl)))
  exact ⟨_, _, hchild, _, _, rfl, rfl, rfl, rfl⟩

theorem forked_responses_match_one : ∃ (s : System ℕ ℕ) (c d : Process ℕ ℕ),
    s.process 0 = some c ∧ s.process 1 = some d ∧ c.log.length = 1 ∧ d.log.length = 1 ∧
      (∀ r ∈ d.log, Matches emptyText s.links r) ∧
      ∀ r ∈ d.log, ∀ r' ∈ c.log, r.conn ≠ r'.conn := by
  obtain ⟨events, s, hrun, c, d, hc, hd, hparent, hchild⟩ := oneFork
  have h := forked_responses_match hrun hd
  refine ⟨s, c, d, hc, hd, ?_, ?_, h.1, h.2.2 0 c zero_ne_one hc⟩
  · rw [hparent]
    rfl
  · rw [hchild]
    rfl

/-- A library that knows two messages. -/
def namedText : JsonText where
  dumps message := .ok (if message = [] then [123, 125] else [123, 32, 125])
  loads bytes := .ok (.dict (if bytes = [123, 125] then [] else [("name", .leaf .none)]))

/-- If two threads of a child share the client at once, one can get the answer of the other. -/
theorem careless_mixes : ∃ events, ∃ s : System ℕ ℕ, Run (Step namedText) (System.new 0) events s ∧
    ∃ c r, s.process 1 = some c ∧ r ∈ c.log ∧ ¬ Matches namedText s.links r := by
  have hrun := (Run.nil : Run (Step namedText) (System.new 0 : System ℕ ℕ) [] _)
    |>.snoc (.fork 0 1 0 _ rfl rfl rfl)
    |>.snoc (.want 1 0 _ (some []) rfl rfl)
    |>.snoc (.enter 1 0 _ [] 0 _ rfl rfl rfl)
    |>.snoc (.afterFork 1 0 _ [] 0 rfl rfl (by decide))
    |>.snoc (.request 1 0 _ 0 _ _ rfl rfl (fun _ _ => rfl)
      (.connect 0 [] (.socket true) rfl rfl rfl))
    |>.snoc (.want 1 1 _ (some [("name", .leaf .none)]) rfl rfl)
    |>.snoc (.enter 1 1 _ [("name", .leaf .none)] 1 _ rfl rfl rfl)
    |>.snoc (.request 1 1 _ 1 _ _ rfl rfl (fun _ _ => rfl)
      (.reuse 1 [("name", .leaf .none)] 0 rfl rfl rfl))
    |>.snoc (.request 1 0 _ 0 _ _ rfl rfl (fun _ _ => rfl)
      (.encode 0 [] 0 _ [0, 0, 0, 2, 123, 125] rfl rfl rfl))
    |>.snoc (.request 1 0 _ 0 _ _ rfl rfl (fun _ _ => rfl)
      (.send 0 [] 0 0 6 _ _ rfl rfl (by decide) (by decide)))
    |>.snoc (.request 1 1 _ 1 _ _ rfl rfl (fun _ _ => rfl)
      (.encode 1 [("name", .leaf .none)] 0 _ [0, 0, 0, 3, 123, 32, 125] rfl rfl rfl))
    |>.snoc (.request 1 1 _ 1 _ _ rfl rfl (fun _ _ => rfl)
      (.send 1 [("name", .leaf .none)] 0 6 7 _ _ rfl rfl (by decide) (by decide)))
    |>.snoc (.serve 0 _ (some ⟨0, 6, [123, 125], none, by decide⟩) rfl
      (by decide) (by decide))
    |>.snoc (.request 1 1 _ 1 _ _ rfl rfl (fun _ _ => rfl)
      (.receive 1 [("name", .leaf .none)] 0 6 13 _ [] none _ [0, 0, 0, 2, 123, 125] rfl rfl rfl
        ⟨by decide, by decide, Nat.le_of_ble_eq_true rfl⟩))
    |>.snoc (.request 1 1 _ 1 _ _ rfl rfl (fun _ _ => rfl)
      (.finish 1 [("name", .leaf .none)] 0 6 13 _ _ _ [] rfl rfl rfl))
  refine ⟨_, _, hrun, _, ⟨[("name", .leaf .none)], 0, 6, 13, [], none⟩, rfl,
    List.mem_singleton.mpr rfl, ?_⟩
  rintro ⟨⟨l, a, hl, ha, hstart, -⟩, -⟩
  cases hl
  cases List.mem_singleton.mp ha
  cases hstart

/-! ## Forks during a request -/

section Left
variable {c d : Process P T} {t : T} {lock : ℕ}

/-- A lock of the child that thread `t` of the parent had. -/
structure Process.Left (lock : ℕ) (t : T) (d : Process P T) : Prop where
  locked : d.Locked
  held : ∃ count, d.locks lock = .held t (count + 1) ∧
    ∀ place, d.thread t = .inside lock place → 0 < count

/-- No thread has that ident yet, and the others wait for the lock. -/
structure Process.Stuck (lock : ℕ) (t : T) (d : Process P T) : Prop where
  named : d.lock = lock
  log : d.log = []
  away : d.thread t = .idle
  thread : ∀ u, d.thread u = .idle ∨ ∃ message, d.thread u = .waiting message lock

theorem Process.Left.only (h : d.Left lock t) {u : T} {place : Control.Place}
    (hu : d.thread u = .inside lock place) : u = t := by
  obtain ⟨count, hheld, -⟩ := h.held
  obtain ⟨count', hheld'⟩ := (h.locked.held u lock place hu).1
  rw [hheld] at hheld'
  cases hheld'
  rfl

theorem Process.Left.same (h : d.Left lock t) (hlocked : c.Locked)
    (hlocks : c.locks lock = d.locks lock)
    (hthread : ∀ place, c.thread t = .inside lock place →
      ∃ place', d.thread t = .inside lock place') : c.Left lock t where
  locked := hlocked
  held := by
    obtain ⟨count, hheld, hinside⟩ := h.held
    refine ⟨count, hlocks.trans hheld, fun place hplace => ?_⟩
    obtain ⟨place', hplace'⟩ := hthread place hplace
    exact hinside place' hplace'

variable [DecidableEq T]

theorem Process.Left.want (h : d.Left lock t) (u : T) (message : Option Message) :
    (d.at u (.waiting message d.lock)).Left lock t := by
  refine h.same (h.locked.want u message) rfl fun place hplace => ⟨place, ?_⟩
  exact Process.inside_of_update (t := u) rfl (fun _ _ => Place.noConfusion) hplace

theorem Process.Left.close (h : d.Left lock t) (u : T) :
    Process.Left lock t { d.at u .idle with current := none, closed := true } := by
  refine h.same (h.locked.close u) rfl fun place hplace => ⟨place, ?_⟩
  exact Process.inside_of_update (t := u) rfl (fun _ _ => Place.noConfusion) hplace

theorem Process.Left.enter (h : d.Left lock t) {u : T} {message : Option Message} {lock' : ℕ}
    {place : Control.Place} {l : Lock T} (hu : d.thread u = .waiting message lock')
    (hget : (d.locks lock').acquire u = some l) (hplace : place ≠ .idle) :
    Process.Left lock t { d.at u (.inside lock' place) with
      locks := Function.update d.locks lock' l } := by
  have hlocked := h.locked.enter hu hget hplace
  by_cases hlock : lock' = lock
  · subst hlock
    obtain ⟨count, hheld, hinside⟩ := h.held
    rw [hheld] at hget
    obtain ⟨hfree, -⟩ | ⟨count', hheld', rfl⟩ := Lock.acquire_eq_some.mp hget
    · cases hfree
    · cases hheld'
      exact ⟨hlocked, count + 1, Function.update_self .., fun _ _ => Nat.succ_pos count⟩
  · refine h.same hlocked (Function.update_of_ne (Ne.symm hlock) ..) fun place' ht => ?_
    have ht : Function.update d.thread u (.inside lock' place) t = .inside lock place' := ht
    by_cases htu : t = u
    · rw [htu, Function.update_self] at ht
      cases ht
      exact absurd rfl hlock
    · rw [Function.update_of_ne htu] at ht
      exact ⟨place', ht⟩

theorem Process.Left.after (h : d.Left lock t) {u : T} {lock' : ℕ} {place : Control.Place}
    {v : Client T} (hu : d.thread u = .inside lock' place) : (d.after u lock' v).Left lock t := by
  have hlocked := h.locked.after (s := v) hu
  by_cases hidle : v.thread u = .idle
  · rw [Process.after_idle hidle] at hlocked ⊢
    by_cases hlock : lock' = lock
    · subst hlock
      obtain rfl := h.only hu
      obtain ⟨count, hheld, hinside⟩ := h.held
      obtain ⟨count', rfl⟩ := Nat.exists_eq_succ_of_ne_zero (hinside place hu).ne'
      refine ⟨hlocked, count', ?_, fun place' ht => ?_⟩
      · show Function.update d.locks lock' _ lock' = _
        rw [Function.update_self, hheld]
        rfl
      · have ht : Function.update d.thread u .idle u = .inside lock' place' := ht
        rw [Function.update_self] at ht
        cases ht
    · refine h.same hlocked (Function.update_of_ne (Ne.symm hlock) ..) fun place' ht => ⟨place', ?_⟩
      exact Process.inside_of_update (t := u) rfl (fun _ _ => Place.noConfusion) ht
  · rw [Process.after_inside hidle] at hlocked ⊢
    refine h.same hlocked rfl fun place' ht => ?_
    have ht : Function.update d.thread u (.inside lock' (v.thread u)) t = .inside lock place' := ht
    by_cases htu : t = u
    · subst htu
      rw [Function.update_self] at ht
      cases ht
      exact ⟨place, hu⟩
    · rw [Function.update_of_ne htu] at ht
      exact ⟨place', ht⟩

end Left

section Waiting
variable [DecidableEq P] {text : JsonText} {s s' : System P T} {p q : P} {c d : Process P T}
  {t : T} {lock : ℕ}

theorem System.locked_set (h : ∀ q d, s.process q = some d → d.Locked) (hc : c.Locked) :
    ∀ q d, (s.set p c).process q = some d → d.Locked := by
  intro q d hq
  by_cases hqp : q = p
  · rw [hqp, System.set_self] at hq
    cases hq
    exact hc
  · rw [System.set_ne hqp] at hq
    exact h q d hq

theorem System.holds_set {I : Process P T → Prop} (hd : s.process q = some d) (h : I d)
    (hc : q = p → I c) : ∃ d', (s.set p c).process q = some d' ∧ I d' := by
  by_cases hqp : q = p
  · rw [hqp, System.set_self]
    exact ⟨c, rfl, hc hqp⟩
  · rw [System.set_ne hqp]
    exact ⟨d, hd, h⟩

variable [DecidableEq T] {e : Event P T}

theorem System.locked_step (h : ∀ p c, s.process p = some c → c.Locked)
    (hstep : Step text s e s') : ∀ p c, s'.process p = some c → c.Locked := by
  cases hstep with
  | want p t c message hp => exact System.locked_set h ((h p c hp).want t message)
  | enter p t c message lock l hp hplace hlock =>
    exact System.locked_set h ((h p c hp).enter hplace hlock Control.Place.noConfusion)
  | close p t c lock l hp => exact System.locked_set h ((h p c hp).close t)
  | afterFork p t c message lock hp => exact System.locked_set h ((h p c hp).afterFork p)
  | request p t c lock place c' hp hplace =>
    exact System.locked_set (s := { s with links := c'.links }) h ((h p c hp).after hplace)
  | fork p q t c hp => exact System.locked_set h (h p c hp).child
  | serve => exact h

/-- The lock stays with the ident: whoever takes it has that ident, and releases it as often. -/
theorem System.left_step (hd : s.process q = some d) (h : d.Left lock t)
    (hstep : Step text s e s') : ∃ d', s'.process q = some d' ∧ d'.Left lock t := by
  cases hstep with
  | want p u c message hp =>
    refine System.holds_set hd h fun hq => ?_
    subst hq
    cases hp.symm.trans hd
    exact h.want u message
  | enter p u c message lock' l hp hplace hget =>
    refine System.holds_set hd h fun hq => ?_
    subst hq
    cases hp.symm.trans hd
    exact h.enter hplace hget Control.Place.noConfusion
  | close p u c lock' l hp =>
    refine System.holds_set hd h fun hq => ?_
    subst hq
    cases hp.symm.trans hd
    exact h.close u
  | afterFork p u c message lock' hp =>
    refine System.holds_set hd h fun hq => ?_
    subst hq
    cases hp.symm.trans hd
    exact h.same (h.locked.afterFork q) rfl fun place hplace => ⟨place, hplace⟩
  | request p u c lock' place c' hp hplace =>
    refine System.holds_set (s := { s with links := c'.links }) hd h fun hq => ?_
    subst hq
    cases hp.symm.trans hd
    exact h.after hplace
  | fork p r u c hp hplace hr =>
    refine System.holds_set hd h fun hq => ?_
    subst hq
    cases hr.symm.trans hd
  | serve => exact ⟨d, hd, h⟩

/-- Until a thread of that ident begins a call, nobody gets past the lock. -/
theorem System.stuck_step (hd : s.process q = some d) (hleft : d.Left lock t)
    (h : d.Stuck lock t) (he : e ≠ .wants q t) (hstep : Step text s e s') :
    ∃ d', s'.process q = some d' ∧ d'.Stuck lock t := by
  have hinside : ∀ u lock' place, d.thread u ≠ .inside lock' place := by
    intro u lock' place hu
    obtain hidle | ⟨message, hwait⟩ := h.thread u
    · rw [hidle] at hu
      cases hu
    · rw [hwait] at hu
      cases hu
  have htaken : ∀ u message lock' l, d.thread u = .waiting message lock' →
      (d.locks lock').acquire u ≠ some l := by
    intro u message lock' l hu hget
    obtain hidle | ⟨message', hwait⟩ := h.thread u
    · rw [hidle] at hu
      cases hu
    · rw [hwait] at hu
      cases hu
      obtain ⟨count, hheld, -⟩ := hleft.held
      rw [hheld] at hget
      obtain rfl := Lock.acquire_held hget
      rw [h.away] at hwait
      cases hwait
  cases hstep with
  | want p u c message hp =>
    refine System.holds_set hd h fun hq => ?_
    subst hq
    cases hp.symm.trans hd
    have hut : u ≠ t := by
      rintro rfl
      exact he rfl
    refine ⟨h.named, h.log, (Function.update_of_ne hut.symm ..).trans h.away, fun v => ?_⟩
    show Function.update d.thread u _ v = _ ∨ ∃ _, Function.update d.thread u _ v = _
    by_cases hv : v = u
    · rw [hv, Function.update_self, h.named]
      exact .inr ⟨message, rfl⟩
    · rw [Function.update_of_ne hv]
      exact h.thread v
  | enter p u c message lock' l hp hplace hget | close p u c lock' l hp hplace hget =>
    refine System.holds_set hd h fun hq => ?_
    subst hq
    cases hp.symm.trans hd
    exact absurd hget (htaken u _ lock' l hplace)
  | afterFork p u c message lock' hp hplace | request p u c lock' place c' hp hplace =>
    refine System.holds_set hd h fun hq => ?_
    subst hq
    cases hp.symm.trans hd
    exact absurd hplace (hinside u lock' _)
  | fork p r u c hp hplace hr =>
    refine System.holds_set hd h fun hq => ?_
    subst hq
    cases hr.symm.trans hd
  | serve => exact ⟨d, hd, h⟩

/-- A child that is forked while a thread of its parent has the lock never gets past that lock with
a thread of another ident. Until one of that ident begins a call, the child completes no request,
and all its threads that have begun one wait. -/
theorem forked_inside_waits {p₀ : P} {past later : List (Event P T)} {s₁ : System P T}
    {place : Control.Place} (hbefore : Run (Step text) (System.new p₀) past s)
    (hp : s.process p = some c) (ht : c.thread t = .inside c.lock place)
    (hfork : Step text s (.forks p q) s₁) (hafter : Run (Step text) s₁ later s') :
    ∃ d, s'.process q = some d ∧
      (∀ u place, u ≠ t → d.thread u ≠ .inside c.lock place) ∧
      (.wants q t ∉ later → d.log = [] ∧
        ∀ u, d.thread u = .idle ∨ ∃ message, d.thread u = .waiting message c.lock) := by
  have hlocked : ∀ p c, s.process p = some c → c.Locked := by
    refine hbefore.invariant (I := fun s => ∀ p c, s.process p = some c → c.Locked)
      (fun _ _ _ h hstep => System.locked_step h hstep) fun r d hr => ?_
    rw [(System.process_new hr).2]
    exact .new p₀
  obtain ⟨count, hheld⟩ := ((hlocked p c hp).held t c.lock place ht).1
  obtain ⟨d, hd, hleft, hstuck⟩ := hafter.history
    (I := fun events s => ∃ d, s.process q = some d ∧ d.Left c.lock t ∧
      (.wants q t ∉ events → d.Stuck c.lock t))
    (by
      cases hfork with
      | fork _ _ u c' hp' =>
        cases hp.symm.trans hp'
        refine ⟨c.child, System.set_self, ⟨(hlocked p c hp).child, count, hheld, ?_⟩, fun _ => ?_⟩
        · intro place' hplace'
          cases hplace'
        · exact ⟨rfl, rfl, rfl, fun _ => .inl rfl⟩)
    (fun events e s s' _ h hstep => by
      obtain ⟨d, hd, hleft, hstuck⟩ := h
      obtain ⟨d', hd', hleft'⟩ := System.left_step hd hleft hstep
      refine ⟨d', hd', hleft', fun hnone => ?_⟩
      rw [List.mem_append, List.mem_singleton, not_or] at hnone
      obtain ⟨d'', hd'', hstuck'⟩ :=
        System.stuck_step hd hleft (hstuck hnone.1) (Ne.symm hnone.2) hstep
      cases hd'.symm.trans hd''
      exact hstuck')
  refine ⟨d, hd, fun u place hut hu => hut (hleft.only hu), fun hnone => ?_⟩
  exact ⟨(hstuck hnone).log, (hstuck hnone).thread⟩

end Waiting

/-- A process in which one thread makes a request and another does not. -/
theorem forkable : ∃ (s : System ℕ ℕ) (c : Process ℕ ℕ),
    Run (Step emptyText) (System.new 0) [.wants 0 0, .other] s ∧ s.process 0 = some c ∧
      c.thread 0 = .inside c.lock (.entered []) ∧ c.thread 1 = .idle ∧ s.process 1 = none :=
  ⟨_, _, (Run.nil : Run (Step emptyText) (System.new 0 : System ℕ ℕ) [] _)
    |>.snoc (.want 0 0 _ (some []) rfl rfl)
    |>.snoc (.enter 0 0 _ [] 0 _ rfl rfl rfl), rfl, rfl, rfl, rfl⟩

theorem forked_inside_waits_one : ∃ (s : System ℕ ℕ) (d : Process ℕ ℕ), s.process 1 = some d ∧
    d.thread 1 = .waiting (some []) d.lock ∧ d.log = [] ∧
    ∀ u place, u ≠ 0 → d.thread u ≠ .inside d.lock place := by
  obtain ⟨s, c, hrun, hc, ht, hidle, hnone⟩ := forkable
  have hfork : Step emptyText s (.forks 0 1) (s.set 1 c.child) := .fork 0 1 1 c hc hidle hnone
  obtain ⟨waiting, hwaiting⟩ : ∃ d, d = c.child.at 1 (.waiting (some []) c.lock) := ⟨_, rfl⟩
  have hwait : Step emptyText (s.set 1 c.child) (.wants 1 1) ((s.set 1 c.child).set 1 waiting) := by
    rw [hwaiting]
    exact .want 1 1 c.child (some []) System.set_self rfl
  have hself : ((s.set 1 c.child).set 1 waiting).process 1 = some waiting := System.set_self
  obtain ⟨d, hd, honly, hstuck⟩ := forked_inside_waits hrun hc ht hfork (.single hwait)
  cases hself.symm.trans hd
  refine ⟨_, waiting, hself, ?_, (hstuck (by simp)).1, ?_⟩
  · rw [hwaiting]
    rfl
  · rw [hwaiting] at honly ⊢
    exact honly

/-- A thread of the child that has the ident of the holder completes a request, past one that
waits. -/
theorem recycled_completes : ∃ (events : List (Event ℕ ℕ)) (s : System ℕ ℕ),
    Run (Step emptyText) (System.new 0) ([.wants 0 0, .other, .forks 0 1] ++ events) s ∧
    ∃ c d, s.process 0 = some c ∧ c.thread 0 = .inside 0 (.entered []) ∧
      s.process 1 = some d ∧ d.thread 1 = .waiting (some []) 0 ∧
      d.log = [⟨[], 0, 0, 6, [], some 4⟩] := by
  have hrun := (Run.nil : Run (Step emptyText) (System.new 0 : System ℕ ℕ) [] _)
    |>.snoc (.want 0 0 _ (some []) rfl rfl)
    |>.snoc (.enter 0 0 _ [] 0 _ rfl rfl rfl)
    |>.snoc (.fork 0 1 1 _ rfl rfl rfl)
    |>.snoc (.want 1 1 _ (some []) rfl rfl)
    |>.snoc (.want 1 0 _ (some []) rfl rfl)
    |>.snoc (.enter 1 0 _ [] 0 _ rfl rfl rfl)
    |>.snoc (.afterFork 1 0 _ [] 0 rfl rfl (by decide))
    |>.snoc (.request 1 0 _ 0 _ _ rfl rfl (fun _ _ => rfl)
      (.connect 0 [] (.socket true) rfl rfl rfl))
    |>.snoc (.request 1 0 _ 0 _ _ rfl rfl (fun _ _ => rfl)
      (.encode 0 [] 0 _ [0, 0, 0, 2, 123, 125] rfl rfl rfl))
    |>.snoc (.request 1 0 _ 0 _ _ rfl rfl (fun _ _ => rfl)
      (.send 0 [] 0 0 6 _ _ rfl rfl (by decide) (by decide)))
    |>.snoc (.serve 0 _ (some ⟨0, 6, [123, 125], some 4, by decide⟩) rfl (by decide) (by decide))
    |>.snoc (.request 1 0 _ 0 _ _ rfl rfl (fun _ _ => rfl)
      (.receive 0 [] 0 0 6 _ [] none _ [0, 0, 0, 2, 123, 125] rfl rfl rfl
        ⟨by decide, by decide, Nat.le_of_ble_eq_true rfl⟩))
    |>.snoc (.request 1 0 _ 0 _ _ rfl rfl (fun _ _ => rfl)
      (.finish 0 [] 0 0 6 _ _ _ [] rfl rfl rfl))
  exact ⟨_, _, hrun, _, _, rfl, rfl, rfl, rfl, rfl⟩

end Npb.Mstore.Control.Forks
