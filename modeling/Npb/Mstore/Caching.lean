import Npb.Foundations.Effects
import Npb.Foundations.Recency
import Npb.Mstore.Races

/-! # Opening through the cache

`_cache_get`, `_cache_put` and `open` as one thread runs them. Each is a run of the steps of that
thread (`openObject_steps`), and when no other thread interferes the cache is an exact LRU cache
(`cache_exact`). -/

namespace Npb.Mstore.Mappings
set_option autoImplicit false
open Effects

variable {T : Type}

/-! ## Methods of the client -/

abbrev Caching (T α : Type) := EStateM PyError (Client T) α

/-- `state.mapping.closed`. -/
def Client.isClosed (s : Client T) (state : ℕ) : Bool := s.mappings[state]?.any Mapping.closed

def changeMapping (state : ℕ) (f : Mapping → Mapping) : Caching T Unit :=
  modify fun s => s.change state f

def cacheGet (key : Key) : Caching T (Option ℕ) := do
  let s ← get
  match s.cache.get? key with
  | none => do
    set { s with misses := s.misses + 1 }
    pure none
  | some state =>
    if s.isClosed state then do
      set { s with cache := s.cache.pop key }
      changeMapping state (Mapping.setCached false)
      modify fun s => { s with misses := s.misses + 1 }
      pure none
    else do
      set { s with cache := s.cache.moveToEnd key state, hits := s.hits + 1 }
      pure (some state)

/-- The `while` loop of `_cache_put`: every round takes an item out. -/
def trim : ℕ → Caching T Unit
  | 0 => pure ()
  | rounds + 1 => do
    let s ← get
    match s.cache.items with
    | [] => pure ()
    | (key, evicted) :: _ =>
      if s.cacheSize < s.cache.size then do
        set { s with cache := s.cache.pop key, evictions := s.evictions + 1 }
        changeMapping evicted (Mapping.setCached false)
        trim rounds
      else pure ()

/-- `if old is not None and old is not state: old.set_cached(False)`. -/
def Client.unmark (s : Client T) (old : Option ℕ) (state : ℕ) : Client T :=
  match old with
  | none => s
  | some old => if old ≠ state then s.change old (Mapping.setCached false) else s

def cachePut (key : Key) (state : ℕ) : Caching T Unit := do
  let s ← get
  if s.cacheSize = 0 then pure ()
  else do
    set { s with cache := s.cache.pop key }
    modify fun s' => s'.unmark (s.cache.get? key) state
    changeMapping state (Mapping.setCached true)
    modify fun s => { s with cache := s.cache.set key state }
    trim (s.cache.size + 1)

/-- `SharedObject(...)`: it acquires its mapping; one that raises is there all the same. -/
def construct (state : ℕ) : Caching T Unit := do
  let s ← get
  match s.mappings[state]? with
  | none => throw (.keyError "state")
  | some m =>
    match m.acquire with
    | .ok m' =>
      set { s.change state fun _ => m' with
        objects := s.objects ++ [SharedObject.mk state true .open] }
    | .error e => do
      set { s with objects := s.objects ++ [SharedObject.mk state false .open] }
      throw e

/-- The mapping that the server's answer leads to. -/
def newMapping (answer : Except PyError Unit) : Caching T ℕ := do
  fromExcept answer
  let s ← get
  set { s with mappings := s.mappings ++ [Mapping.new] }
  pure s.mappings.length

/-- The mapping that `open` leases, and whether it came from the cache. -/
def findMapping (answer : Except PyError Unit) (key : Key) (cache : Bool) :
    Caching T (ℕ × Bool) := do
  let found ← if cache then cacheGet key else pure none
  match found with
  | some state => pure (state, true)
  | none => do
    let state ← newMapping answer
    if cache then cachePut key state else pure ()
    pure (state, false)

/-- `open(object_id, token, mode=mode, cache=cache)`. -/
def openObject (answer : Except PyError Unit) (key : Key) (cache : Bool) :
    Caching T (ℕ × Bool) := do
  fromExcept (if key.mode ≠ "read" ∧ key.mode ≠ "write"
    then .error (.valueError "mode must be 'read' or 'write'") else .ok ())
  let found ← findMapping answer key cache
  construct found.1
  pure found

/-- `SharedObject.close()`. -/
def closeObject (i : ℕ) : Caching T Unit := do
  let s ← get
  match s.objects[i]? with
  | none => pure ()
  | some o =>
    if o.stage = .open then do
      set { s with objects := s.objects.set i { o with stage := .closed } }
      changeMapping o.state Mapping.release
    else pure ()

structure CacheInfo where
  size : ℕ
  capacity : ℕ
  hits : ℕ
  misses : ℕ
  evictions : ℕ

def cacheInfo (s : Client T) : CacheInfo :=
  ⟨s.cache.size, s.cacheSize, s.hits, s.misses, s.evictions⟩

/-! ## The eviction loop -/

section Trim
variable {s s' : Client T} {key : Key} {state : ℕ}

/-- What a cache operation leaves alone. -/
structure Client.Frame (s s' : Client T) : Prop where
  cacheSize : s'.cacheSize = s.cacheSize
  lock : s'.lock = s.lock
  thread : s'.thread = s.thread

/-- With enough rounds, the loop keeps the last items, and counts the others. -/
theorem trim_run (rounds : ℕ) (h : s.cache.size ≤ s.cacheSize + rounds) : ∃ s',
    trim rounds s = .ok () s' ∧ s'.cache.items = s.cache.items.rtake s.cacheSize ∧
      s'.evictions + s'.cache.size = s.evictions + s.cache.size ∧ s'.hits = s.hits ∧
      s'.misses = s.misses ∧ s.Frame s' := by
  induction rounds generalizing s with
  | zero => exact ⟨s, rfl, (rtake_of_length_le h).symm, rfl, rfl, rfl, rfl, rfl, rfl⟩
  | succ rounds ih =>
    unfold trim
    rw [bind_ok (get_run s)]
    cases hitems : s.cache.items with
    | nil => exact ⟨s, rfl, by rw [hitems, rtake_of_length_le (Nat.zero_le _)], rfl, rfl, rfl, rfl,
        rfl, rfl⟩
    | cons e rest =>
      obtain ⟨key, evicted⟩ := e
      have hsize : s.cache.size = rest.length + 1 := by rw [Dict.size, hitems, List.length_cons]
      by_cases hmore : s.cacheSize < s.cache.size
      · simp only [if_pos hmore]
        have hpop := Dict.items_pop_head hitems
        have hrest : (s.cache.pop key).size = rest.length := by rw [Dict.size, hpop]
        obtain ⟨s', hrun, hkept, hcount, hhits, hmisses, hframe⟩ := ih
          (s := { s with cache := s.cache.pop key, evictions := s.evictions + 1 }.change evicted
            (Mapping.setCached false)) (by simp only [Client.change]; omega)
        refine ⟨s', hrun, ?_, ?_, hhits, hmisses, hframe.cacheSize, hframe.lock, hframe.thread⟩
        · rw [hkept]
          show (s.cache.pop key).items.rtake s.cacheSize = _
          rw [hpop]
          have hlong : s.cacheSize ≤ rest.length := by omega
          exact (rtake_append_of_le ([(key, evicted)]) hlong).symm
        · simp only [Client.change] at hcount
          omega
      · simp only [if_neg hmore]
        refine ⟨s, rfl, ?_, rfl, rfl, rfl, rfl, rfl, rfl⟩
        rw [hitems, rtake_of_length_le]
        rw [List.length_cons]
        omega

/-- `_cache_put` without its loop. -/
def Client.put (s : Client T) (key : Key) (state : ℕ) : Client T :=
  let s' := ({ s with cache := s.cache.pop key }.unmark (s.cache.get? key) state).change state
    (Mapping.setCached true)
  { s' with cache := s'.cache.set key state }

theorem cachePut_eq (hsize : s.cacheSize ≠ 0) :
    cachePut key state s = trim (s.cache.size + 1) (s.put key state) := by
  unfold cachePut
  rw [bind_ok (get_run s), if_neg hsize]
  rfl

theorem unmark_eq (s : Client T) (old : Option ℕ) (state : ℕ) :
    s.unmark old state = { s with mappings := (s.unmark old state).mappings } := by
  unfold Client.unmark
  cases old with
  | none => rfl
  | some old =>
    by_cases hne : old ≠ state
    · simp only [if_pos hne]
      rfl
    · simp only [if_neg hne]

theorem put_eq (s : Client T) (key : Key) (state : ℕ) : s.put key state = { s with
    cache := (s.cache.pop key).set key state
    mappings := (s.put key state).mappings } := by
  unfold Client.put
  rw [unmark_eq]
  rfl

/-- The item goes to the end, and the first ones go when there are too many. -/
theorem cachePut_run (hsize : s.cacheSize ≠ 0) (key : Key) (state : ℕ) : ∃ s',
    cachePut key state s = .ok () s' ∧
      s'.cache.items = ((s.cache.pop key).items ++ [(key, state)]).rtake s.cacheSize ∧
      s'.evictions + s'.cache.size = s.evictions + (s.cache.pop key).size + 1 ∧
      s'.hits = s.hits ∧ s'.misses = s.misses ∧ s.Frame s' := by
  rw [cachePut_eq hsize, put_eq]
  have hitems := Dict.items_set_new (v := state) (Dict.get?_pop_self (d := s.cache) (k := key))
  have hsize' : ((s.cache.pop key).set key state).size = (s.cache.pop key).size + 1 := by
    rw [Dict.size, hitems, List.length_append]
    rfl
  have hpop := Dict.size_pop_le (d := s.cache) (k := key)
  obtain ⟨s', hrun, hkept, hcount, hhits, hmisses, hframe⟩ := trim_run (s := { s with
    cache := (s.cache.pop key).set key state
    mappings := (s.put key state).mappings }) (s.cache.size + 1) (by
      show ((s.cache.pop key).set key state).size ≤ _
      omega)
  refine ⟨s', hrun, ?_, ?_, hhits, hmisses, hframe.cacheSize, hframe.lock, hframe.thread⟩
  · rw [hkept, ← hitems]
  · rw [hcount, hsize']
    rfl

end Trim

/-! ## Calls as runs of steps -/

section Calls
variable [DecidableEq T] {s s' : Client T} {t : T} {place place' : Place} {key : Key} {state : ℕ}

abbrev Steps : Client T → Client T → Prop := Relation.ReflTransGen Step

/-- No thread holds the cache lock, and `t` is in no method. -/
structure Client.Calm (s : Client T) (t : T) : Prop where
  unlocked : s.lock = none
  idle : s.thread t = .idle

/-- The thread is at a place where it holds the cache lock. -/
def Client.inside (s : Client T) (t : T) (place : Place) : Client T :=
  { s with lock := some t }.at t place

theorem Client.at_at (s : Client T) (t : T) (place place' : Place) :
    (s.at t place).at t place' = s.at t place' := by
  unfold Client.at
  rw [Function.update_idem]

theorem Client.Calm.at_idle (h : s.Calm t) : s.at t .idle = s := by
  unfold Client.at
  rw [← h.idle, Function.update_eq_self]

omit [DecidableEq T] in
theorem Client.Calm.of_frame (h : s.Calm t) (hframe : s.Frame s') : s'.Calm t :=
  ⟨hframe.lock.trans h.unlocked, (congrFun hframe.thread t).trans h.idle⟩

theorem Steps.move (h : Step (s.at t place) ((s'.at t place).at t place')) :
    Steps (s.at t place) (s'.at t place') := by
  rw [Client.at_at] at h
  exact .single h

theorem Steps.stop (hcalm : s'.Calm t) (h : Step (s.at t place) ((s'.at t place).at t .idle)) :
    Steps (s.at t place) s' := by
  rw [Client.at_at, hcalm.at_idle] at h
  exact .single h

theorem Steps.change {f : Mapping → Mapping}
    (h : Step (s.inside t place) (((s.inside t place).change state f).at t place')) :
    Steps (s.inside t place) ((s.change state f).inside t place') := Steps.move h

theorem Steps.leave (hlock : s'.lock = none) (h : Step (s.inside t place)
    ({ s'.inside t place with lock := none }.at t place')) :
    Steps (s.inside t place) (s'.at t place') := by
  have hsame : { s'.inside t place with lock := none } = s'.at t place := by
    unfold Client.inside Client.at
    rw [← hlock]
  rw [hsame, Client.at_at] at h
  exact .single h

/-- Where `_cache_get` leaves the thread. -/
def afterGet (key : Key) : Option ℕ → Place
  | some state => .leasing state
  | none => .requesting (some key)

theorem cacheGet_steps (hcalm : s.Calm t)
    (hbound : ∀ key i, s.cache.get? key = some i → i < s.mappings.length) {found : Option ℕ}
    (h : cacheGet key s = .ok found s') :
    s'.Calm t ∧ Steps (s.at t (.looking key)) (s'.at t (afterGet key found)) := by
  unfold cacheGet at h
  rw [bind_ok (get_run s)] at h
  cases hget : s.cache.get? key with
  | none =>
    rw [hget] at h
    cases h
    exact ⟨⟨hcalm.unlocked, hcalm.idle⟩,
      Steps.move (Step.miss t key Client.at_thread_self hcalm.unlocked hget)⟩
  | some state =>
    rw [hget] at h
    have hm := List.getElem?_eq_getElem (hbound key state hget)
    by_cases hclosed : s.isClosed state = true
    · simp only [if_pos hclosed] at h
      cases h
      unfold Client.isClosed at hclosed
      rw [hm] at hclosed
      have hstale : Steps (s.at t (.looking key))
          ({ s with cache := s.cache.pop key }.inside t (.discarding key state)) :=
        Steps.move (Step.stale t key state _ Client.at_thread_self hcalm.unlocked hget hm hclosed)
      exact ⟨⟨hcalm.unlocked, hcalm.idle⟩, hstale.trans
        (Steps.leave hcalm.unlocked (Step.discard t key state Client.at_thread_self))⟩
    · simp only [if_neg hclosed] at h
      cases h
      unfold Client.isClosed at hclosed
      rw [hm] at hclosed
      exact ⟨⟨hcalm.unlocked, hcalm.idle⟩, Steps.move (Step.hit t key state _ Client.at_thread_self
        hcalm.unlocked hget hm (Bool.eq_false_iff.mpr hclosed))⟩

theorem trim_steps {rounds : ℕ} (h : trim rounds s = .ok () s') :
    Steps (s.inside t (.trimming state)) (s'.inside t (.trimming state)) := by
  induction rounds generalizing s with
  | zero =>
    cases h
    exact .refl
  | succ rounds ih =>
    unfold trim at h
    rw [bind_ok (get_run s)] at h
    cases hitems : s.cache.items with
    | nil =>
      rw [hitems] at h
      cases h
      exact .refl
    | cons e rest =>
      obtain ⟨key, evicted⟩ := e
      rw [hitems] at h
      by_cases hmore : s.cacheSize < s.cache.size
      · simp only [if_pos hmore] at h
        have hevict : Steps (s.inside t (.trimming state))
            ({ s with cache := s.cache.pop key, evictions := s.evictions + 1 }.inside t
              (.evicting state evicted)) :=
          Steps.move (Step.evict t state evicted key Client.at_thread_self hmore
            (List.head?_eq_some_iff.mpr ⟨rest, hitems⟩))
        have hdrop := Steps.change (Step.drop t state evicted Client.at_thread_self : Step
          ({ s with cache := s.cache.pop key, evictions := s.evictions + 1 }.inside t
            (.evicting state evicted)) _)
        exact (hevict.trans hdrop).trans (ih h)
      · simp only [if_neg hmore] at h
        cases h
        exact .refl

theorem put_steps (hcalm : s.Calm t) (hsize : s.cacheSize ≠ 0) :
    Steps (s.at t (.putting key state)) ((s.put key state).inside t (.trimming state)) := by
  have hmarked : ∀ {s₁ : Client T}, Steps (s₁.inside t (.marking key state))
      ({ s₁.change state (Mapping.setCached true) with
        cache := s₁.cache.set key state }.inside t (.trimming state)) := by
    intro s₁
    have hmark := Steps.change (Step.mark t key state Client.at_thread_self :
      Step (s₁.inside t (.marking key state)) _)
    exact hmark.trans (Steps.move (Step.insert t key state Client.at_thread_self))
  cases hget : s.cache.get? key with
  | none =>
    have hput : Steps (s.at t (.putting key state))
        ({ s with cache := s.cache.pop key }.inside t (.marking key state)) :=
      Steps.move (Step.put t key state Client.at_thread_self hsize hcalm.unlocked (.inl hget))
    unfold Client.put Client.unmark
    rw [hget]
    exact hput.trans hmarked
  | some old =>
    unfold Client.put Client.unmark
    rw [hget]
    by_cases hne : old ≠ state
    · have hput : Steps (s.at t (.putting key state))
          ({ s with cache := s.cache.pop key }.inside t (.replacing key state old)) :=
        Steps.move (Step.putOver t key state old Client.at_thread_self hsize hcalm.unlocked hget
          hne)
      have hreplace := Steps.change (Step.replace t key state old Client.at_thread_self :
        Step ({ s with cache := s.cache.pop key }.inside t (.replacing key state old)) _)
      simp only [if_pos hne]
      exact (hput.trans hreplace).trans hmarked
    · have hsame := not_not.mp hne
      have hput : Steps (s.at t (.putting key state))
          ({ s with cache := s.cache.pop key }.inside t (.marking key state)) :=
        Steps.move (Step.put t key state Client.at_thread_self hsize hcalm.unlocked
          (.inr (hget.trans (congrArg some hsame))))
      simp only [if_neg hne]
      exact hput.trans hmarked

theorem cachePut_steps (hcalm : s.Calm t) (h : cachePut key state s = .ok () s') :
    s'.Calm t ∧ Steps (s.at t (.putting key state)) (s'.at t (.leasing state)) := by
  by_cases hsize : s.cacheSize = 0
  · unfold cachePut at h
    rw [bind_ok (get_run s), if_pos hsize] at h
    cases h
    exact ⟨hcalm, Steps.move (Step.putNothing t key state Client.at_thread_self hsize)⟩
  · obtain ⟨s'', hrun, hitems, -, -, -, hframe⟩ := cachePut_run hsize key state
    cases hrun.symm.trans h
    rw [cachePut_eq hsize] at hrun
    have hwithin : s'.cache.size ≤ s'.cacheSize := by
      rw [Dict.size, hitems, length_rtake, hframe.cacheSize]
      exact Nat.min_le_left ..
    have hcalm' := hcalm.of_frame hframe
    have htrimmed := Steps.leave hcalm'.unlocked
      (Step.trimmed t state Client.at_thread_self hwithin)
    exact ⟨hcalm', ((put_steps hcalm hsize).trans (trim_steps hrun)).trans htrimmed⟩

section Construct
omit [DecidableEq T]
variable {m m' : Mapping}

theorem construct_ok (hm : s.mappings[state]? = some m) (hacquire : m.acquire = .ok m') :
    construct state s = .ok () { s.change state fun _ => m' with
      objects := s.objects ++ [SharedObject.mk state true .open] } := by
  unfold construct
  rw [bind_ok (get_run s), hm]
  simp only [hacquire]
  rfl

theorem construct_error {e : PyError} (hm : s.mappings[state]? = some m)
    (hacquire : m.acquire = .error e) : construct state s = .error e { s with
      objects := s.objects ++ [SharedObject.mk state false .open] } := by
  unfold construct
  rw [bind_ok (get_run s), hm]
  simp only [hacquire]
  rfl

end Construct

theorem construct_steps (hcalm : s.Calm t) (hstate : state < s.mappings.length) :
    (finalState (construct state s)).Calm t ∧
      Steps (s.at t (.leasing state)) (finalState (construct state s)) := by
  have hm := List.getElem?_eq_getElem hstate
  cases hacquire : s.mappings[state].acquire with
  | ok m' =>
    rw [construct_ok hm hacquire, finalState_ok]
    have hcalm' : Client.Calm { s.change state fun _ => m' with
        objects := s.objects ++ [SharedObject.mk state true .open] } t :=
      ⟨hcalm.unlocked, hcalm.idle⟩
    exact ⟨hcalm', Steps.stop hcalm' (Step.lease t state _ m' Client.at_thread_self hm hacquire)⟩
  | error e =>
    rw [construct_error hm hacquire, finalState_error]
    have hcalm' : Client.Calm { s with
        objects := s.objects ++ [SharedObject.mk state false .open] } t :=
      ⟨hcalm.unlocked, hcalm.idle⟩
    exact ⟨hcalm', Steps.stop hcalm'
      (Step.leaseFailed t state _ e Client.at_thread_self hm hacquire)⟩

section Finding
omit [DecidableEq T]

/-- The state with one mapping more. -/
def Client.mapped (s : Client T) : Client T := { s with mappings := s.mappings ++ [Mapping.new] }

theorem findMapping_hit {answer : Except PyError Unit}
    (hget : cacheGet key s = .ok (some state) s') :
    findMapping answer key true s = .ok (state, true) s' := bind_ok hget _

theorem findMapping_miss {s'' : Client T} (hget : cacheGet key s = .ok none s')
    (hput : cachePut key s'.mappings.length s'.mapped = .ok () s'') :
    findMapping (.ok ()) key true s = .ok (s'.mappings.length, false) s'' :=
  (bind_ok hget _).trans (bind_ok hput _)

theorem findMapping_failed {e : PyError} (hget : cacheGet key s = .ok none s') :
    findMapping (.error e) key true s = .error e s' := bind_ok hget _

theorem cacheGet_returns (key : Key) (s : Client T) :
    ∃ found s', cacheGet key s = .ok found s' := by
  unfold cacheGet
  rw [bind_ok (get_run s)]
  cases s.cache.get? key with
  | none => exact ⟨_, _, rfl⟩
  | some state =>
    by_cases hclosed : s.isClosed state = true
    · simp only [if_pos hclosed]
      exact ⟨_, _, rfl⟩
    · simp only [if_neg hclosed]
      exact ⟨_, _, rfl⟩

theorem cachePut_returns (key : Key) (state : ℕ) (s : Client T) :
    ∃ s', cachePut key state s = .ok () s' := by
  by_cases hsize : s.cacheSize = 0
  · unfold cachePut
    rw [bind_ok (get_run s), if_pos hsize]
    exact ⟨s, rfl⟩
  · obtain ⟨s', hrun, -⟩ := cachePut_run hsize key state
    exact ⟨s', hrun⟩

end Finding

/-- A call has come to its constructor, or its request has failed. -/
def Found (s : Client T) (t : T) : EStateM.Result PyError (Client T) (ℕ × Bool) → Prop
  | .ok found s' => s'.Calm t ∧ Steps s (s'.at t (.leasing found.1))
  | .error _ s' => s'.Calm t ∧ Steps s s'

theorem findMapping_steps (answer : Except PyError Unit) (key : Key) (cache : Bool)
    (hcalm : s.Calm t) (hbound : ∀ key i, s.cache.get? key = some i → i < s.mappings.length) :
    Found s t (findMapping answer key cache s) := by
  cases cache with
  | true =>
    obtain ⟨found, s₁, hget⟩ := cacheGet_returns key s
    obtain ⟨hcalm₁, hsteps⟩ := cacheGet_steps hcalm hbound hget
    have hstart : Steps s (s.at t (.looking key)) := .single (.openCached t key hcalm.idle)
    have hlooked := hstart.trans hsteps
    cases found with
    | some state =>
      rw [findMapping_hit hget]
      exact ⟨hcalm₁, hlooked⟩
    | none =>
      cases answer with
      | ok u =>
        obtain ⟨s₂, hput⟩ := cachePut_returns key s₁.mappings.length s₁.mapped
        have hmap : Steps (s₁.at t (.requesting (some key)))
            (s₁.mapped.at t (.putting key s₁.mappings.length)) :=
          Steps.move (Step.map t (some key) Client.at_thread_self)
        rw [findMapping_miss hget hput]
        have hcalm' : s₁.mapped.Calm t := ⟨hcalm₁.unlocked, hcalm₁.idle⟩
        obtain ⟨hcalm₂, hsteps₂⟩ := cachePut_steps hcalm' hput
        exact ⟨hcalm₂, (hlooked.trans hmap).trans hsteps₂⟩
      | error e =>
        rw [findMapping_failed hget]
        have hfailed := Steps.stop hcalm₁ (Step.requestFailed t (some key) Client.at_thread_self :
          Step (s₁.at t (.requesting (some key))) _)
        exact ⟨hcalm₁, hlooked.trans hfailed⟩
  | false =>
    have hstart : Steps s (s.at t (.requesting none)) := .single (.request t hcalm.idle)
    cases answer with
    | ok u =>
      have hmap : Steps (s.at t (.requesting none)) (s.mapped.at t (.leasing s.mappings.length)) :=
        Steps.move (Step.map t none Client.at_thread_self)
      exact ⟨⟨hcalm.unlocked, hcalm.idle⟩, hstart.trans hmap⟩
    | error e =>
      have hfailed := Steps.stop hcalm (Step.requestFailed t none Client.at_thread_self :
        Step (s.at t (.requesting none)) _)
      exact ⟨hcalm, hstart.trans hfailed⟩

/-- What holds between the calls of a thread. -/
structure Client.Between (s : Client T) (t : T) : Prop where
  calm : s.Calm t
  inv : Inv s
  alive : Alive s

theorem Steps.sound (hinv : Inv s) (halive : Alive s) (h : Steps s s') : Inv s' ∧ Alive s' := by
  induction h with
  | refl => exact ⟨hinv, halive⟩
  | tail _ hstep ih => exact ⟨ih.1.step hstep, ih.2.step ih.1 hstep⟩

omit [DecidableEq T] in
theorem Client.Between.bound (h : s.Between t) (key : Key) (i : ℕ)
    (hget : s.cache.get? key = some i) : i < s.mappings.length :=
  (h.inv.tidy_unlocked h.calm.unlocked).bound key i hget

/-- A call of `open` is a run of the steps of its thread, whether it returns or raises. -/
theorem openObject_steps (answer : Except PyError Unit) (key : Key) (cache : Bool)
    (h : s.Between t) : (finalState (openObject answer key cache s)).Calm t ∧
      Steps s (finalState (openObject answer key cache s)) := by
  unfold openObject
  by_cases hmode : key.mode ≠ "read" ∧ key.mode ≠ "write"
  · rw [if_pos hmode]
    exact ⟨h.calm, .refl⟩
  · rw [if_neg hmode, bind_ok (fromExcept_ok () s)]
    have hfound := findMapping_steps answer key cache h.calm h.bound
    cases hresult : findMapping answer key cache s with
    | error e s' =>
      rw [hresult] at hfound
      rw [bind_error hresult]
      exact hfound
    | ok found s' =>
      rw [hresult] at hfound
      rw [bind_ok hresult]
      obtain ⟨hcalm, hsteps⟩ := hfound
      have hinv := (hsteps.sound h.inv h.alive).1
      have hstate : found.1 < s'.mappings.length :=
        hinv.known t found.1 (by rw [Client.at_thread_self]; rfl)
      obtain ⟨hcalm', hsteps'⟩ := construct_steps hcalm hstate
      rw [bind_run]
      cases hconstruct : construct found.1 s' with
      | ok u s'' =>
        rw [hconstruct] at hcalm' hsteps'
        exact ⟨hcalm', hsteps.trans hsteps'⟩
      | error e s'' =>
        rw [hconstruct] at hcalm' hsteps'
        exact ⟨hcalm', hsteps.trans hsteps'⟩

omit [DecidableEq T] in
theorem closeObject_run (i : ℕ) (s : Client T) : closeObject i s = .ok () s ∨
    ∃ o, s.objects[i]? = some o ∧ o.stage = .open ∧ closeObject i s = .ok ()
      { s.change o.state Mapping.release with
        objects := s.objects.set i { o with stage := .closed } } := by
  unfold closeObject
  rw [bind_ok (get_run s)]
  cases ho : s.objects[i]? with
  | none => exact .inl rfl
  | some o =>
    by_cases hstage : o.stage = .open
    · simp only [if_pos hstage]
      exact .inr ⟨o, rfl, hstage, rfl⟩
    · simp only [if_neg hstage]
      exact .inl rfl

theorem closeObject_steps (hcalm : s.Calm t) {i : ℕ} (h : closeObject i s = .ok () s') :
    s'.Calm t ∧ Steps s s' := by
  obtain hrun | ⟨o, ho, hstage, hrun⟩ := closeObject_run i s
  · cases hrun.symm.trans h
    exact ⟨hcalm, .refl⟩
  · cases hrun.symm.trans h
    refine ⟨⟨hcalm.unlocked, hcalm.idle⟩, ?_⟩
    have hlt := (List.getElem?_eq_some_iff.mp ho).1
    have hclose := Relation.ReflTransGen.single (Step.close i o ho hstage)
    have hrelease := Step.release (s := { s with
      objects := s.objects.set i { o with stage := .closing } }) i { o with stage := .closing }
      (List.getElem?_set_self hlt) rfl
    simp only [List.set_set] at hrelease
    exact hclose.tail hrelease

theorem Client.Between.steps (h : s.Between t) (hcalm : s'.Calm t) (hsteps : Steps s s') :
    s'.Between t := by
  obtain ⟨hinv, halive⟩ := hsteps.sound h.inv h.alive
  exact ⟨hcalm, hinv, halive⟩

end Calls

/-! ## An LRU cache -/

section Exact
variable {T : Type} {s s' : Client T} {key key' : Key} {state : ℕ} {c : ℕ}

/-- A mapping that the cache has is open, outside the cache operations. -/
theorem cached_open (hinv : Inv s) (halive : Alive s) (hlock : s.lock = none)
    (hget : s.cache.get? key = some state) :
    ∃ m, s.mappings[state]? = some m ∧ m.closed = false := by
  have hflag := flag_of_get hinv hlock hget
  have hm := List.getElem?_eq_getElem ((hinv.tidy_unlocked hlock).bound key state hget)
  unfold Client.flag at hflag
  rw [hm] at hflag
  exact ⟨_, hm, halive.cached state _ hm hflag⟩

theorem cacheGet_miss (hget : s.cache.get? key = none) :
    cacheGet key s = .ok none { s with misses := s.misses + 1 } := by
  unfold cacheGet
  rw [bind_ok (get_run s), hget]
  rfl

theorem cacheGet_hit (hget : s.cache.get? key = some state) (hopen : s.isClosed state = false) :
    cacheGet key s = .ok (some state)
      { s with cache := s.cache.moveToEnd key state, hits := s.hits + 1 } := by
  unfold cacheGet
  rw [bind_ok (get_run s), hget]
  simp only [hopen]
  rfl

/-- What one call does to the cache and to its counters. -/
structure Called (c : ℕ) (key : Key) (state : ℕ) (hit : Bool) (s s' : Client T) : Prop where
  keys : s'.cache.keys = touch c s.cache.keys key
  known : hit = decide (key ∈ s.cache.keys)
  found : hit = true → s.cache.get? key = some state
  lookups : ∀ k i, s'.cache.get? k = some i →
    (k = key ∧ i = state) ∨ (k ≠ key ∧ s.cache.get? k = some i)
  kept : s'.cache.get? key = some state
  hits : s'.hits = s.hits + if hit then 1 else 0
  misses : s'.misses = s.misses + if hit then 0 else 1
  evictions : s'.evictions + s'.cache.size = s.evictions + s.cache.size + if hit then 0 else 1
  frame : s.Frame s'

theorem mem_keys_iff : key ∈ s.cache.keys ↔ ∃ i, s.cache.get? key = some i := by
  rw [Dict.mem_keys]
  exact exists_congr fun i => Dict.get?_eq_some.symm

theorem keys_pop (s : Client T) (key : Key) :
    (s.cache.pop key).keys = s.cache.keys.filter (· ≠ key) := by
  unfold Dict.keys Dict.pop Dict.filter
  rw [List.filter_map]
  rfl

theorem Called.of_hit (hwithin : s.cache.size ≤ c) (hget : s.cache.get? key = some state) :
    Called c key state true s
      { s with cache := s.cache.moveToEnd key state, hits := s.hits + 1 } := by
  have hitems := Dict.items_moveToEnd (d := s.cache) (k := key) (v := state)
  have hkeys : (s.cache.moveToEnd key state).keys = s.cache.keys.filter (· ≠ key) ++ [key] := by
    rw [← keys_pop]
    unfold Dict.keys
    rw [hitems, List.map_append]
    rfl
  have hmem : key ∈ s.cache.keys := mem_keys_iff.mpr ⟨state, hget⟩
  have hlength : (s.cache.keys.filter (· ≠ key)).length + 1 = s.cache.size := by
    have hless : (s.cache.keys.filter (· ≠ key)).length < s.cache.keys.length :=
      List.length_filter_lt_length_iff_exists.mpr ⟨key, hmem, by simp⟩
    have hnodup : s.cache.keys.Nodup := s.cache.nodup
    have hmost := length_filter_ne hnodup key
    have hsize : s.cache.keys.length = s.cache.size := List.length_map ..
    omega
  have hsize : (s.cache.moveToEnd key state).size = s.cache.size := by
    have hsame : (s.cache.moveToEnd key state).keys.length = (s.cache.moveToEnd key state).size :=
      List.length_map ..
    rw [← hsame, hkeys, List.length_append]
    exact hlength
  constructor
  case keys =>
    show (s.cache.moveToEnd key state).keys = _
    rw [hkeys, touch, rtake_of_length_le]
    rw [List.length_append]
    exact hlength.trans_le hwithin
  case known => exact (decide_eq_true hmem).symm
  case found => exact fun _ => hget
  case lookups =>
    intro k i hi
    have hbefore : s.cache.get? k = some i := (Dict.get?_moveToEnd hget).symm.trans hi
    by_cases hk : k = key
    · subst hk
      exact .inl ⟨rfl, Option.some.inj (hbefore.symm.trans hget)⟩
    · exact .inr ⟨hk, hbefore⟩
  case kept => exact (Dict.get?_moveToEnd hget).trans hget
  case hits => rfl
  case misses => rfl
  case evictions =>
    show s.evictions + (s.cache.moveToEnd key state).size = _
    rw [hsize]
    rfl
  case frame => exact ⟨rfl, rfl, rfl⟩

/-- A miss puts its key at the end, and the first one goes when the cache is full. -/
theorem Called.of_miss (hc : 1 ≤ c) (hsize : s.cacheSize = c) (hget : s.cache.get? key = none) :
    ∃ s', cachePut key s.mappings.length { s with misses := s.misses + 1 }.mapped = .ok () s' ∧
      Called c key s.mappings.length false s s' := by
  subst hsize
  obtain ⟨s', hput, hitems, hcount, hhits, hmisses, hframe⟩ := cachePut_run
    (s := { s with misses := s.misses + 1 }.mapped) (by
      show s.cacheSize ≠ 0
      omega) key s.mappings.length
  have hitems : s'.cache.items =
      ((s.cache.pop key).items ++ [(key, s.mappings.length)]).rtake s.cacheSize := hitems
  have hcount : s'.evictions + s'.cache.size = s.evictions + (s.cache.pop key).size + 1 := hcount
  have hnew : key ∉ s.cache.keys := by
    intro hmem
    obtain ⟨i, hi⟩ := mem_keys_iff.mp hmem
    rw [hget] at hi
    cases hi
  have hkept : s'.cache.get? key = some s.mappings.length := by
    apply Dict.get?_eq_some.mpr
    obtain ⟨n, hn⟩ : ∃ n, s.cacheSize = n + 1 := ⟨s.cacheSize - 1, by omega⟩
    rw [hitems, hn, List.rtake_concat_succ]
    exact List.mem_append_right _ (List.mem_singleton_self _)
  refine ⟨s', hput, ?_⟩
  constructor
  case keys =>
    have hmap := keys_pop s key
    unfold Dict.keys at hmap ⊢
    unfold touch
    rw [hitems, ← hmap, List.rtake, List.rtake, List.map_drop, List.map_append, List.length_append,
      List.length_append, List.length_map]
    rfl
  case known => exact (decide_eq_false hnew).symm
  case found => exact nofun
  case lookups =>
    intro k i hi
    have hmem := Dict.get?_eq_some.mp hi
    rw [hitems] at hmem
    obtain hmem | hmem := List.mem_append.mp (List.mem_of_mem_drop hmem)
    · obtain ⟨hbefore, hne⟩ := Dict.mem_pop.mp hmem
      exact .inr ⟨hne, Dict.get?_eq_some.mpr hbefore⟩
    · cases List.mem_singleton.mp hmem
      exact .inl ⟨rfl, rfl⟩
  case kept => exact hkept
  case hits => exact hhits
  case misses => exact hmisses
  case evictions =>
    rw [hcount, Dict.size, Dict.items_pop_new hget]
    rfl
  case frame => exact ⟨hframe.cacheSize, hframe.lock, hframe.thread⟩

end Exact

/-! ## Runs of one thread -/

/-- What the only thread of a program does with its client. A refused call has a bad mode. -/
inductive Event where
  | opened (key : Key) (state : ℕ) (hit : Bool)
  | refused (key : Key)
  | closed (i : ℕ)
  | borrowed (state : ℕ)
  | letGo (state : ℕ)

/-- Every call opens through the cache, and the server answers every request. -/
inductive Turn (s : Client Unit) : Event → Client Unit → Prop
  | opened (key : Key) (state : ℕ) (hit : Bool) (s' : Client Unit)
    (hopen : openObject (.ok ()) key true s = .ok (state, hit) s') :
    Turn s (.opened key state hit) s'
  | refused (key : Key) (e : PyError) (s' : Client Unit)
    (hraise : openObject (.ok ()) key true s = .error e s') : Turn s (.refused key) s'
  | closed (i : ℕ) (s' : Client Unit) (hclose : closeObject i s = .ok () s') : Turn s (.closed i) s'
  | borrowed (state : ℕ) (m : Mapping) (hm : s.mappings[state]? = some m)
    (hopen : m.closed = false) : Turn s (.borrowed state) (s.change state Mapping.borrow)
  | letGo (state : ℕ) : Turn s (.letGo state) (s.change state Mapping.letGo)

/-- The keys of the calls. -/
def requests (events : List Event) : List Key :=
  events.filterMap fun
    | .opened key _ _ => some key
    | _ => none

/-- The mapping that the last miss of a key has put into the cache. -/
def inserted (key : Key) : List Event → Option ℕ :=
  List.foldl (fun found e =>
    match e with
    | .opened key' state false => if key' = key then some state else found
    | _ => found) none

structure Exact (c : ℕ) (events : List Event) (s : Client Unit) : Prop where
  between : s.Between ()
  capacity : s.cacheSize = c
  keys : s.cache.keys = recent c (requests events)
  values : ∀ key i, s.cache.get? key = some i → inserted key events = some i
  calls : s.hits + s.misses = (requests events).length
  removed : s.evictions + s.cache.size = s.misses

section Runs
variable {T : Type} {c state : ℕ} {hit : Bool} {events : List Event} {s s' : Client Unit}
  {key : Key}

theorem Exact.new (c : ℕ) : Exact c [] (Client.new c) := by
  refine ⟨⟨⟨rfl, rfl⟩, Inv.new c, Alive.new c⟩, rfl, ?_, nofun, rfl, rfl⟩
  exact (List.drop_nil ..).symm

theorem openObject_ok {m : Mapping}
    (hmode : key.mode = "read" ∨ key.mode = "write")
    (hfound : findMapping (.ok ()) key true s = .ok (state, hit) s')
    (hm : s'.mappings[state]? = some m) (hopen : m.closed = false) :
    ∃ m', openObject (.ok ()) key true s = .ok (state, hit) { s'.change state fun _ => m' with
      objects := s'.objects ++ [SharedObject.mk state true .open] } := by
  obtain ⟨m', hacquire⟩ := Mapping.acquire_open hopen
  have hnot : ¬(key.mode ≠ "read" ∧ key.mode ≠ "write") := by tauto
  unfold openObject
  rw [if_neg hnot, bind_ok (fromExcept_ok () s), bind_ok hfound, bind_ok (construct_ok hm hacquire)]
  exact ⟨m', rfl⟩

/-- The lookup of a call, and what it finds. -/
theorem Exact.find (h : Exact c events s) (hc : 1 ≤ c) (key : Key) : ∃ state hit s',
    findMapping (.ok ()) key true s = .ok (state, hit) s' ∧ Called c key state hit s s' := by
  cases hget : s.cache.get? key with
  | some state =>
    obtain ⟨m, hm, hopen⟩ := cached_open h.between.inv h.between.alive h.between.calm.unlocked hget
    have hstate : s.isClosed state = false := by
      unfold Client.isClosed
      rw [hm]
      exact hopen
    have hwithin := h.between.inv.within_unlocked h.between.calm.unlocked
    rw [h.capacity] at hwithin
    exact ⟨state, true, _, findMapping_hit (cacheGet_hit hget hstate), .of_hit hwithin hget⟩
  | none =>
    obtain ⟨s', hput, hcalled⟩ := Called.of_miss hc h.capacity hget
    exact ⟨_, false, s', findMapping_miss (cacheGet_miss hget) hput, hcalled⟩

theorem requests_concat : requests (events ++ [.opened key state hit]) = requests events ++ [key] :=
  List.filterMap_append

theorem inserted_concat {k : Key} : inserted k (events ++ [.opened key state hit]) =
    if hit = false ∧ key = k then some state else inserted k events := by
  unfold inserted
  rw [List.foldl_append]
  cases hit with
  | true => rfl
  | false => simp

/-- The cache and the counters are the same. -/
structure Client.Unchanged (s s' : Client T) : Prop where
  cacheSize : s'.cacheSize = s.cacheSize
  cache : s'.cache = s.cache
  hits : s'.hits = s.hits
  misses : s'.misses = s.misses
  evictions : s'.evictions = s.evictions

/-- A call keeps the cache exact; making its object changes nothing there. -/
theorem Exact.call (h : Exact c events s) (hc : 1 ≤ c) {s₁ : Client Unit}
    (hcalled : Called c key state hit s s₁) (hsame : s₁.Unchanged s') (hbetween : s'.Between ()) :
    Exact c (events ++ [.opened key state hit]) s' := by
  constructor
  case between => exact hbetween
  case capacity => exact (hsame.cacheSize.trans hcalled.frame.cacheSize).trans h.capacity
  case keys =>
    rw [requests_concat, recent_concat hc, ← h.keys, hsame.cache]
    exact hcalled.keys
  case values =>
    rw [hsame.cache]
    intro k i hi
    rw [inserted_concat]
    obtain ⟨rfl, rfl⟩ | ⟨hne, hbefore⟩ := hcalled.lookups k i hi
    · cases hit with
      | true => exact h.values k i (hcalled.found rfl)
      | false => exact if_pos ⟨rfl, rfl⟩
    · rw [if_neg fun hsame => hne hsame.2.symm]
      exact h.values k i hbefore
  case calls =>
    have hcalls := h.calls
    rw [requests_concat, List.length_append, hsame.hits, hsame.misses, hcalled.hits,
      hcalled.misses]
    cases hit with
    | true =>
      simp only [if_true, List.length_singleton]
      omega
    | false =>
      simp only [Bool.false_eq_true, if_false, List.length_singleton]
      omega
  case removed =>
    rw [hsame.evictions, hsame.cache, hsame.misses, hcalled.evictions, hcalled.misses, h.removed]

theorem Exact.next (h : Exact c events s) (hc : 1 ≤ c) (key : Key)
    (hmode : key.mode = "read" ∨ key.mode = "write") : ∃ state hit s',
      openObject (.ok ()) key true s = .ok (state, hit) s' ∧
        hit = decide (key ∈ recent c (requests events)) ∧
        (hit = true → inserted key events = some state) ∧
        Exact c (events ++ [.opened key state hit]) s' := by
  obtain ⟨state, hit, s₁, hfound, hcalled⟩ := h.find hc key
  have hsteps := findMapping_steps (.ok ()) key true h.between.calm h.between.bound
  rw [hfound] at hsteps
  obtain ⟨hcalm, hsteps⟩ := hsteps
  -- What the call leases is in the cache now, and everything in the cache is open.
  obtain ⟨hinv, halive⟩ := hsteps.sound h.between.inv h.between.alive
  obtain ⟨m, hm, hopen⟩ := cached_open hinv halive hcalm.unlocked hcalled.kept
  obtain ⟨m', hresult⟩ := openObject_ok hmode hfound hm hopen
  have hcall := openObject_steps (.ok ()) key true h.between
  rw [hresult] at hcall
  refine ⟨state, hit, _, hresult, ?_, ?_, ?_⟩
  · rw [← h.keys]
    exact hcalled.known
  · exact fun htrue => h.values key state (hcalled.found htrue)
  · exact h.call hc hcalled ⟨rfl, rfl, rfl, rfl, rfl⟩ (h.between.steps hcall.1 hcall.2)

/-- An event other than a call. -/
def Event.quiet : Event → Bool
  | .opened .. => false
  | _ => true

theorem Exact.quiet (h : Exact c events s) {e : Event} (hquiet : e.quiet = true)
    (hbetween : s'.Between ()) (hsame : s.Unchanged s') : Exact c (events ++ [e]) s' := by
  have hrequests : requests (events ++ [e]) = requests events := by
    unfold requests
    rw [List.filterMap_append]
    cases e with
    | opened key state hit => cases hquiet
    | _ => exact List.append_nil _
  have hinserted : ∀ key, inserted key (events ++ [e]) = inserted key events := by
    intro key
    unfold inserted
    rw [List.foldl_append]
    cases e with
    | opened key state hit => cases hquiet
    | _ => rfl
  refine ⟨hbetween, hsame.cacheSize.trans h.capacity, ?_, ?_, ?_, ?_⟩
  · rw [hrequests, hsame.cache]
    exact h.keys
  · rw [hsame.cache]
    intro key i hi
    rw [hinserted]
    exact h.values key i hi
  · rw [hrequests, hsame.hits, hsame.misses]
    exact h.calls
  · rw [hsame.evictions, hsame.cache, hsame.misses]
    exact h.removed

theorem closeObject_unchanged {i : ℕ} (hclose : closeObject i s = .ok () s') :
    s.Unchanged s' := by
  obtain hrun | ⟨o, -, -, hrun⟩ := closeObject_run i s
  · cases hrun.symm.trans hclose
    exact ⟨rfl, rfl, rfl, rfl, rfl⟩
  · cases hrun.symm.trans hclose
    exact ⟨rfl, rfl, rfl, rfl, rfl⟩

theorem Exact.turn (h : Exact c events s) (hc : 1 ≤ c) {e : Event} (hturn : Turn s e s') :
    Exact c (events ++ [e]) s' := by
  have hcalm := h.between.calm
  cases hturn with
  | opened key state hit s' hopen =>
    by_cases hmode : key.mode = "read" ∨ key.mode = "write"
    · obtain ⟨state', hit', s'', hopen', -, -, hexact⟩ := h.next hc key hmode
      cases hopen.symm.trans hopen'
      exact hexact
    · push Not at hmode
      unfold openObject at hopen
      rw [if_pos hmode] at hopen
      cases hopen
  | refused key e s' hraise =>
    by_cases hmode : key.mode = "read" ∨ key.mode = "write"
    · obtain ⟨state', hit', s'', hopen', -⟩ := h.next hc key hmode
      cases hraise.symm.trans hopen'
    · push Not at hmode
      unfold openObject at hraise
      rw [if_pos hmode] at hraise
      cases hraise
      exact h.quiet rfl h.between ⟨rfl, rfl, rfl, rfl, rfl⟩
  | closed i s' hclose =>
    have hcall := closeObject_steps hcalm hclose
    exact h.quiet rfl (h.between.steps hcall.1 hcall.2) (closeObject_unchanged hclose)
  | borrowed state m hm hopen =>
    have hbetween : (s.change state Mapping.borrow).Between () :=
      h.between.steps ⟨hcalm.1, hcalm.2⟩ (.single (.borrow state m hm hopen))
    exact h.quiet rfl hbetween ⟨rfl, rfl, rfl, rfl, rfl⟩
  | letGo state =>
    have hbetween : (s.change state Mapping.letGo).Between () :=
      h.between.steps ⟨hcalm.1, hcalm.2⟩ (.single (.letGo state))
    exact h.quiet rfl hbetween ⟨rfl, rfl, rfl, rfl, rfl⟩

theorem run_exact (hc : 1 ≤ c) (hrun : Run Turn (Client.new c) events s) : Exact c events s :=
  hrun.history (Exact.new c) fun _ _ _ _ _ h hturn => h.turn hc hturn

/-- The cache holds the last keys, the counters count the calls, and the next call is a hit if and
only if its key is held: it returns what the last miss of this key has put there. -/
theorem cache_exact (hc : 1 ≤ c) (hrun : Run Turn (Client.new c) events s) :
    s.cache.keys = recent c (requests events) ∧
      (cacheInfo s).hits + (cacheInfo s).misses = (requests events).length ∧
      (cacheInfo s).evictions + (cacheInfo s).size = (cacheInfo s).misses ∧
      ∀ key : Key, key.mode = "read" ∨ key.mode = "write" → ∃ state hit s',
        openObject (.ok ()) key true s = .ok (state, hit) s' ∧
          (hit = true ↔ key ∈ recent c (requests events)) ∧
          (hit = true → inserted key events = some state) := by
  have h := run_exact hc hrun
  refine ⟨h.keys, h.calls, h.removed, ?_⟩
  intro key hmode
  obtain ⟨state, hit, s', hopen, hhit, hvalue, -⟩ := h.next hc key hmode
  refine ⟨state, hit, s', hopen, ?_, hvalue⟩
  rw [hhit, decide_eq_true_iff]

end Runs

/-- Of two keys, a cache for one mapping holds the second. -/
theorem cache_exact_evicted : ∃ events, ∃ s : Client Unit, Run Turn (Client.new 1) events s ∧
    requests events = [⟨"o", "t", "read"⟩, ⟨"p", "t", "read"⟩] ∧
    s.cache.keys = [⟨"p", "t", "read"⟩] := by
  obtain ⟨state, hit, s, hopen, -, -, hexact⟩ :=
    (Exact.new 1).next (le_refl 1) ⟨"o", "t", "read"⟩ (.inl rfl)
  obtain ⟨state', hit', s', hopen', -, -, -⟩ :=
    hexact.next (le_refl 1) ⟨"p", "t", "read"⟩ (.inl rfl)
  have hfirst := (Run.nil : Run Turn (Client.new 1) [] _).snoc (.opened _ state hit s hopen)
  have hsecond := hfirst.snoc (.opened _ state' hit' s' hopen')
  refine ⟨_, s', hsecond, rfl, ?_⟩
  rw [(cache_exact (le_refl 1) hsecond).1]
  show recent 1 [Key.mk "o" "t" "read", ⟨"p", "t", "read"⟩] = [⟨"p", "t", "read"⟩]
  decide

end Npb.Mstore.Mappings
