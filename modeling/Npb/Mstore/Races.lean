import Npb.Mstore.Lifetime

/-! # Opens that race with the cache

Between finding a mapping in the cache, or putting it there, and taking a lease of it, a thread owns
nothing: if the mapping loses its last owner meanwhile, it is closed and the constructor of the
`SharedObject` raises. An open succeeds as long as no step does that (`opens_succeed_iff`). -/

namespace Npb.Mstore.Mappings
set_option autoImplicit false

variable {T : Type}

/-! ## Owners -/

namespace Mapping

/-- The cache has the mapping, or somebody has a lease of it. -/
def owned (m : Mapping) : Bool := m.cached || m.leases ≠ 0

section Laws
variable {m m' : Mapping}

theorem maybeClose_open (hopen : m.closed = false) (h : m.exports = 0 → m.owned = true) :
    m.maybeClose.closed = false := by
  unfold maybeClose
  by_cases howned : m.cached = true ∨ m.leases ≠ 0 ∨ m.closed = true
  · rw [if_pos howned]
    exact hopen
  · rw [if_neg howned]
    by_cases hexports : m.exports ≠ 0
    · rw [if_pos hexports]
      exact hopen
    · push Not at howned hexports
      have hm := h hexports
      unfold owned at hm
      simp [howned.1, howned.2.1] at hm

theorem maybeClose_abandoned (hexports : m.exports = 0) (h : m.owned = false) :
    m.maybeClose.closed = true := by
  by_cases hclosed : m.closed = true
  · exact maybeClose_closed hclosed
  · have howned : ¬(m.cached = true ∨ m.leases ≠ 0 ∨ m.closed = true) := by
      unfold owned at h
      simp only [Bool.or_eq_false_iff, decide_eq_false_iff_not, not_not] at h
      simp [h.1, h.2, hclosed]
    unfold maybeClose
    rw [if_neg howned, if_neg (not_not.mpr hexports)]

theorem acquire_ok (h : m.acquire = .ok m') :
    m.closed = false ∧ m' = { m with leases := m.leases + 1 } := by
  unfold acquire at h
  by_cases hclosed : m.closed = true
  · rw [if_pos hclosed] at h
    cases h
  · rw [if_neg hclosed] at h
    exact ⟨Bool.eq_false_iff.mpr hclosed, (Except.ok.inj h).symm⟩

theorem acquire_open (hopen : m.closed = false) : ∃ m', m.acquire = .ok m' := by
  unfold acquire
  rw [if_neg (by simp [hopen])]
  exact ⟨_, rfl⟩

end Laws
end Mapping

/-! ## What a step does to a mapping -/

/-- The mapping whose flag the next step of a thread clears. -/
def Place.drops : Place → Option ℕ
  | .discarding _ state => some state
  | .replacing _ _ old => some old
  | .evicting _ evicted => some evicted
  | .clearing (state :: _) => some state
  | _ => none

/-- What becomes of a mapping between two states, with the thread or the object that did it. -/
inductive Change (s s' : Client T) (i : ℕ) (m : Mapping) : Mapping → Prop
  | same : Change s s' i m m
  | unmarked (t : T) (hdrops : (s.thread t).drops = some i) (hmoved : s'.thread t ≠ s.thread t) :
    Change s s' i m (m.setCached false)
  | marked (t : T) (key : Key) (hplace : s.thread t = .marking key i) :
    Change s s' i m (m.setCached true)
  | leased (t : T) (m' : Mapping) (hplace : s.thread t = .leasing i)
    (hacquire : m.acquire = .ok m') : Change s s' i m m'
  | released (j : ℕ) (o : SharedObject) (ho : s.objects[j]? = some o) (hstage : o.stage = .closing)
    (hstate : o.state = i) (hmoved : s'.objects[j]? ≠ some o) : Change s s' i m m.release
  | borrowed : Change s s' i m m.borrow
  | letGo : Change s s' i m m.letGo

section Changes
variable {s s' : Client T} {i j : ℕ} {m : Mapping}

theorem change_modify {f : Mapping → Mapping} (hm : s.mappings[i]? = some m)
    (h : j = i → Change s s' i m (f m)) :
    ∃ m', (s.mappings.modify j f)[i]? = some m' ∧ Change s s' i m m' := by
  rw [List.getElem?_modify, hm]
  by_cases hj : j = i
  · exact ⟨f m, by simp [hj], h hj⟩
  · exact ⟨m, by simp [hj], .same⟩

theorem Step.change [DecidableEq T] (h : Step s s') (hm : s.mappings[i]? = some m) :
    ∃ m', s'.mappings[i]? = some m' ∧ Change s s' i m m' := by
  cases h with
  | discard t key state hplace =>
    exact change_modify hm fun heq => .unmarked t (by rw [hplace, ← heq]; rfl) (by simp [hplace])
  | replace t key state old hplace =>
    exact change_modify hm fun heq => .unmarked t (by rw [hplace, ← heq]; rfl) (by simp [hplace])
  | drop t state evicted hplace =>
    exact change_modify hm fun heq => .unmarked t (by rw [hplace, ← heq]; rfl) (by simp [hplace])
  | clearNext t state states hplace =>
    exact change_modify hm fun heq => .unmarked t (by rw [hplace, ← heq]; rfl) (by simp [hplace])
  | mark t key state hplace =>
    exact change_modify hm fun heq => .marked t key (heq ▸ hplace)
  | map t key hplace =>
    have hlt := (List.getElem?_eq_some_iff.mp hm).1
    refine ⟨m, ?_, .same⟩
    show (s.mappings ++ [Mapping.new])[i]? = some m
    rw [List.getElem?_append_left hlt, hm]
  | lease t state m₀ m' hplace hm₀ hacquire =>
    refine change_modify hm fun heq => ?_
    subst heq
    cases hm.symm.trans hm₀
    exact .leased t m' hplace hacquire
  | release j o ho hstage =>
    refine change_modify hm fun heq => .released j o ho hstage heq ?_
    intro hstay
    have hset := (List.getElem?_set_self (List.getElem?_eq_some_iff.mp ho).1).symm.trans hstay
    rw [← Option.some.inj hset] at hstage
    cases hstage
  | borrow state m₀ hm₀ hopen => exact change_modify hm fun _ => .borrowed
  | letGo state => exact change_modify hm fun _ => .letGo
  | _ => exact ⟨m, hm, .same⟩

theorem Step.changed [DecidableEq T] (h : Step s s') {m' : Mapping}
    (hm' : s'.mappings[i]? = some m') :
    (∃ m, s.mappings[i]? = some m ∧ Change s s' i m m') ∨ s.mappings.length ≤ i ∧ m' = .new := by
  cases hm : s.mappings[i]? with
  | some m =>
    obtain ⟨m'', hm'', hchange⟩ := h.change hm
    cases hm'.symm.trans hm''
    exact .inl ⟨m, rfl, hchange⟩
  | none =>
    have hge := List.getElem?_eq_none_iff.mp hm
    have hmodify : ∀ (j : ℕ) (f : Mapping → Mapping),
        (s.mappings.modify j f)[i]? ≠ some m' := by
      intro j f
      rw [List.getElem?_modify, hm]
      exact nofun
    refine .inr ⟨hge, ?_⟩
    cases h with
    | map t key hplace =>
      obtain ⟨hlt, hget⟩ := List.getElem?_eq_some_iff.mp hm'
      have hlast : (s.mappings ++ [Mapping.new])[i]? = some m' := hm'
      rw [List.getElem?_append_right hge, List.getElem?_singleton] at hlast
      split at hlast
      · exact (Option.some.inj hlast).symm
      · cases hlast
    | discard t key state hplace => exact absurd hm' (hmodify _ _)
    | replace t key state old hplace => exact absurd hm' (hmodify _ _)
    | drop t state evicted hplace => exact absurd hm' (hmodify _ _)
    | clearNext t state states hplace => exact absurd hm' (hmodify _ _)
    | mark t key state hplace => exact absurd hm' (hmodify _ _)
    | lease t state m₀ m₁ hplace hm₀ hacquire => exact absurd hm' (hmodify _ _)
    | release j o ho hstage => exact absurd hm' (hmodify _ _)
    | borrow state m₀ hm₀ hopen => exact absurd hm' (hmodify _ _)
    | letGo state => exact absurd hm' (hmodify _ _)
    | _ => cases hm.symm.trans hm'

theorem Change.open_of {m' : Mapping} (h : Change s s' i m m') (hopen : m.closed = false)
    (hdrops : ∀ t, (s.thread t).drops ≠ some i)
    (hobjects : ∀ o ∈ s.objects, o.state ≠ i) : m'.closed = false := by
  cases h with
  | same => exact hopen
  | unmarked t h hmoved => exact absurd h (hdrops t)
  | marked t key hplace => exact Mapping.maybeClose_open hopen fun _ => rfl
  | leased t m' hplace hacquire =>
    rw [(Mapping.acquire_ok hacquire).2]
    exact hopen
  | released j o ho hstage hstate hmoved =>
    exact absurd hstate (hobjects o (List.mem_of_getElem? ho))
  | borrowed => exact hopen
  | letGo => exact hopen

theorem Change.cached_open {m' : Mapping} (h : Change s s' i m m')
    (hopen : m.cached = true → m.closed = false)
    (hmade : ∀ t, s.fresh t = some i → m.closed = false) (hcached : m'.cached = true) :
    m'.closed = false := by
  cases h with
  | same => exact hopen hcached
  | unmarked t h hmoved =>
    have hflag : (m.setCached false).cached = false := Mapping.maybeClose_cached
    rw [hflag] at hcached
    cases hcached
  | marked t key hplace =>
    have hfresh : s.fresh t = some i := by
      unfold Client.fresh
      rw [hplace]
      rfl
    exact Mapping.maybeClose_open (hmade t hfresh) fun _ => rfl
  | leased t m' hplace hacquire =>
    rw [(Mapping.acquire_ok hacquire).2] at hcached ⊢
    exact hopen hcached
  | released j o ho hstage hstate hmoved =>
    have hsame : m.release.cached = m.cached := Mapping.maybeClose_cached
    have hflag : m.cached = true := hsame.symm.trans hcached
    exact Mapping.maybeClose_open (hopen hflag) fun _ => by simp [Mapping.owned, hflag]
  | borrowed => exact hopen hcached
  | letGo => exact hopen hcached

end Changes

/-! ## What a step does to the threads -/

theorem Place.goal_of_fresh {place : Place} {i : ℕ} (h : place.fresh = some i) :
    place.goal = none := by
  cases place <;> first | rfl | cases h

theorem Place.pending_of_drops {place : Place} {i : ℕ} (h : place.drops = some i) :
    place.holds = true ∧ i ∈ place.pending := by
  cases place with
  | discarding key state | replacing key state old | evicting state evicted =>
    cases h
    exact ⟨rfl, List.mem_singleton_self i⟩
  | clearing states =>
    cases states with
    | nil => cases h
    | cons state states =>
      cases h
      exact ⟨rfl, List.mem_cons_self⟩
  | _ => cases h

/-- Where the mapping comes from that a thread has made, or is going to lease. -/
structure Moves (s : Client T) (t : T) (place : Place) : Prop where
  fresh : ∀ i, place.fresh = some i → s.fresh t = some i ∨ i = s.mappings.length
  goal : ∀ i, place.goal = some i → (s.thread t).goal = some i ∨ s.fresh t = some i ∨
    (∃ key, s.cache.get? key = some i) ∨ i = s.mappings.length

section Threads
variable {s s' : Client T} {t : T}

theorem Moves.nowhere {place : Place} (hfresh : place.fresh = none) (hgoal : place.goal = none) :
    Moves s t place := by
  constructor
  · intro i hi
    rw [hfresh] at hi
    cases hi
  · intro i hi
    rw [hgoal] at hi
    cases hi

theorem Moves.keep {before place : Place} (hplace : s.thread t = before)
    (hfresh : ∀ i, place.fresh = some i → before.fresh = some i)
    (hgoal : ∀ i, place.goal = some i → before.goal = some i ∨ before.fresh = some i) :
    Moves s t place := by
  have hbefore : s.fresh t = before.fresh := by
    unfold Client.fresh
    rw [hplace]
  constructor
  · intro i hi
    rw [hbefore]
    exact .inl (hfresh i hi)
  · intro i hi
    rw [hbefore, hplace]
    obtain h | h := hgoal i hi
    · exact .inl h
    · exact .inr (.inl h)

variable [DecidableEq T]

/-- At most one thread moves. -/
theorem Step.moves (h : Step s s') : s'.thread = s.thread ∨
    ∃ t place, s'.thread = Function.update s.thread t place ∧ Moves s t place := by
  cases h with
  | hit t key state m hplace hlock hget hm hopen =>
    refine .inr ⟨t, _, rfl, nofun, ?_⟩
    intro i hi
    cases hi
    exact .inr (.inr (.inl ⟨key, hget⟩))
  | map t key hplace =>
    refine .inr ⟨t, _, rfl, ?_⟩
    cases key with
    | some key => exact ⟨fun i hi => .inr (Option.some.inj hi).symm, nofun⟩
    | none => exact ⟨nofun, fun i hi => .inr (.inr (.inr (Option.some.inj hi).symm))⟩
  | putNothing t key state hplace hsize =>
    exact .inr ⟨t, _, rfl, .keep hplace nofun fun _ hi => .inr hi⟩
  | put t key state hplace hsize hlock hnew =>
    exact .inr ⟨t, _, rfl, .keep hplace (fun _ hi => hi) nofun⟩
  | putOver t key state old hplace hsize hlock hget hne =>
    exact .inr ⟨t, _, rfl, .keep hplace (fun _ hi => hi) nofun⟩
  | replace t key state old hplace =>
    exact .inr ⟨t, _, rfl, .keep hplace (fun _ hi => hi) nofun⟩
  | mark t key state hplace => exact .inr ⟨t, _, rfl, .keep hplace nofun fun _ hi => .inr hi⟩
  | insert t key state hplace => exact .inr ⟨t, _, rfl, .keep hplace nofun fun _ hi => .inl hi⟩
  | evict t state evicted key hplace hsize hfirst =>
    exact .inr ⟨t, _, rfl, .keep hplace nofun fun _ hi => .inl hi⟩
  | drop t state evicted hplace => exact .inr ⟨t, _, rfl, .keep hplace nofun fun _ hi => .inl hi⟩
  | trimmed t state hplace hsize => exact .inr ⟨t, _, rfl, .keep hplace nofun fun _ hi => .inl hi⟩
  | close i o ho hstage => exact .inl rfl
  | release i o ho hstage => exact .inl rfl
  | borrow state m hm hopen => exact .inl rfl
  | letGo state => exact .inl rfl
  | _ => exact .inr ⟨_, _, rfl, .nowhere rfl rfl⟩

/-- Objects are made for mappings that a thread was going to lease. -/
theorem Step.objects (h : Step s s') {o : SharedObject} (ho : o ∈ s'.objects) :
    (∃ o₀ ∈ s.objects, o₀.state = o.state) ∨ ∃ t, (s.thread t).goal = some o.state := by
  have hset : ∀ {i : ℕ} {o₀ o₁ : SharedObject}, s.objects[i]? = some o₀ →
      o ∈ s.objects.set i o₁ → o₁.state = o₀.state → ∃ o₀ ∈ s.objects, o₀.state = o.state := by
    intro i o₀ o₁ ho₀ hmem hstate
    obtain hmem | rfl := List.mem_or_eq_of_mem_set hmem
    · exact ⟨o, hmem, rfl⟩
    · exact ⟨o₀, List.mem_of_getElem? ho₀, hstate.symm⟩
  have hnew : ∀ {t : T} {state : ℕ} {acquired : Bool}, s.thread t = .leasing state →
      o ∈ s.objects ++ [⟨state, acquired, .open⟩] →
      (∃ o₀ ∈ s.objects, o₀.state = o.state) ∨ ∃ t, (s.thread t).goal = some o.state := by
    intro t state acquired hplace hmem
    obtain hmem | hmem := List.mem_append.mp hmem
    · exact .inl ⟨o, hmem, rfl⟩
    · cases List.mem_singleton.mp hmem
      exact .inr ⟨t, by rw [hplace]; rfl⟩
  cases h with
  | lease t state m m' hplace hm hacquire => exact hnew hplace ho
  | leaseFailed t state m e hplace hm hacquire => exact hnew hplace ho
  | close i o₀ ho₀ hstage => exact .inl (hset ho₀ ho rfl)
  | release i o₀ ho₀ hstage => exact .inl (hset ho₀ ho rfl)
  | _ => exact .inl ⟨o, ho, rfl⟩

end Threads

/-! ## What a thread has not shared -/

/-- A mapping that a thread has made and not yet cached is its own, and open; so is every mapping
that is marked as cached. -/
structure Alive (s : Client T) : Prop where
  cached : ∀ (i : ℕ) m, s.mappings[i]? = some m → m.cached = true → m.closed = false
  made : ∀ t i m, s.fresh t = some i → s.mappings[i]? = some m → m.closed = false
  apart : ∀ t u i, s.fresh t = some i → (s.thread u).goal ≠ some i
  unshared : ∀ t, ∀ o ∈ s.objects, s.fresh t ≠ some o.state

theorem Alive.new (cacheSize : ℕ) : Alive (Client.new cacheSize : Client T) :=
  ⟨nofun, nofun, nofun, nofun⟩

/-- What the thread that holds the cache lock knows: the flags that it is to clear are set, and the
mapping it has put is the last item. -/
def Client.Sees (s : Client T) : Place → Prop
  | .discarding _ state => s.flag state = true
  | .replacing _ _ old => s.flag old = true ∧ s.cacheSize ≠ 0
  | .marking .. | .inserting .. => s.cacheSize ≠ 0
  | .trimming state => s.cacheSize ≠ 0 ∧ ∃ key, s.cache.items.getLast? = some (key, state)
  | .evicting state evicted => s.flag evicted = true ∧ s.cacheSize ≠ 0 ∧
      ∃ key, s.cache.items.getLast? = some (key, state)
  | .clearing states => states.Nodup ∧ ∀ i ∈ states, s.flag i = true
  | _ => True

def Busy (s : Client T) : Prop := ∀ t, s.lock = some t → s.Sees (s.thread t)

section Busy
variable {s s' : Client T} {t : T} {place : Place}

theorem Client.Sees.congr (h : s.Sees place) (hcache : s'.cache = s.cache)
    (hsize : s'.cacheSize = s.cacheSize) (hflag : ∀ i, s'.flag i = s.flag i) : s'.Sees place := by
  unfold Client.Sees at h ⊢
  simp only [hcache, hsize, hflag]
  exact h

theorem Client.Sees.drops (h : s.Sees place) {i : ℕ} (hdrops : place.drops = some i) :
    s.flag i = true := by
  cases place with
  | discarding key state =>
    cases hdrops
    exact h
  | replacing key state old =>
    cases hdrops
    exact h.1
  | evicting state evicted =>
    cases hdrops
    exact h.1
  | clearing states =>
    cases states with
    | nil => cases hdrops
    | cons state states =>
      cases hdrops
      exact h.2 i List.mem_cons_self
  | _ => cases hdrops

theorem Busy.outside (h : Busy s) (hthread : ∀ u, s.lock = some u → s'.thread u = s.thread u)
    (hlock : s'.lock = s.lock) (hcache : s'.cache = s.cache) (hsize : s'.cacheSize = s.cacheSize)
    (hflag : ∀ i, s'.flag i = s.flag i) : Busy s' := by
  intro u hu
  rw [hlock] at hu
  rw [hthread u hu]
  exact (h u hu).congr hcache hsize hflag

theorem Busy.nobody (hlock : s.lock = none) : Busy s := by
  intro u hu
  rw [hlock] at hu
  cases hu

/-- The thread that moves holds the lock afterwards. -/
theorem Busy.inside (hself : s.thread t = place) (hlock : s.lock = some t) (h : s.Sees place) :
    Busy s := by
  intro u hu
  rw [hlock] at hu
  cases hu
  rw [hself]
  exact h

theorem Inv.elsewhere_holds [DecidableEq T] (h : Inv s) {before : Place}
    (hplace : s.thread t = before) (hholds : before.holds = false) (u : T)
    (hu : s.lock = some u) : (s.at t place).thread u = s.thread u := by
  apply Client.at_thread_ne
  intro heq
  have hself := (h.locked u).mpr hu
  rw [heq, hplace, hholds] at hself
  cases hself

theorem flag_of_get (h : Inv s) (hlock : s.lock = none) {key : Key} {i : ℕ}
    (hget : s.cache.get? key = some i) : s.flag i = true :=
  ((h.tidy_unlocked hlock).flags i List.not_mem_nil).mpr ⟨key, hget⟩

end Busy

section Steps
variable [DecidableEq T] {s s' : Client T}

theorem Busy.step (h : Busy s) (hinv : Inv s) (hstep : Step s s') : Busy s' := by
  have hsees : ∀ {t : T} {place : Place}, s.thread t = place → place.holds = true →
      s.Sees place := by
    intro t place hplace hholds
    have hself := h t (hinv.lock_eq hplace hholds)
    rwa [hplace] at hself
  cases hstep with
  | request t hplace =>
    exact h.outside (hinv.elsewhere_holds hplace rfl) rfl rfl rfl fun _ => rfl
  | openCached t key hplace =>
    exact h.outside (hinv.elsewhere_holds hplace rfl) rfl rfl rfl fun _ => rfl
  | miss t key hplace hlock hget =>
    exact h.outside (hinv.elsewhere_holds hplace rfl) rfl rfl rfl fun _ => rfl
  | hit t key state m hplace hlock hget hm hopen => exact .nobody hlock
  | stale t key state m hplace hlock hget hm hclosed =>
    exact .inside (Client.at_thread_self ..) rfl (flag_of_get hinv hlock hget)
  | discard t key state hplace => exact .nobody rfl
  | requestFailed t key hplace =>
    exact h.outside (hinv.elsewhere_holds hplace rfl) rfl rfl rfl fun _ => rfl
  | map t key hplace =>
    exact h.outside (hinv.elsewhere_holds hplace rfl) rfl rfl rfl fun _ => flag_append
  | putNothing t key state hplace hsize =>
    exact h.outside (hinv.elsewhere_holds hplace rfl) rfl rfl rfl fun _ => rfl
  | put t key state hplace hsize hlock hnew =>
    exact .inside (Client.at_thread_self ..) rfl hsize
  | putOver t key state old hplace hsize hlock hget hne =>
    exact .inside (Client.at_thread_self ..) rfl ⟨flag_of_get hinv hlock hget, hsize⟩
  | replace t key state old hplace =>
    exact .inside (Client.at_thread_self ..) (hinv.lock_eq hplace rfl) (hsees hplace rfl).2
  | mark t key state hplace =>
    exact .inside (Client.at_thread_self ..) (hinv.lock_eq hplace rfl) (hsees hplace rfl)
  | insert t key state hplace =>
    have hheld := hinv.held t (hinv.lock_eq hplace rfl)
    rw [hplace] at hheld
    refine .inside (Client.at_thread_self ..) (hinv.lock_eq hplace rfl) ⟨hsees hplace rfl, key, ?_⟩
    show (s.cache.set key state).items.getLast? = some (key, state)
    rw [Dict.items_set_new hheld.1, List.getLast?_concat]
  | evict t state evicted key hplace hsize hfirst =>
    obtain ⟨hpositive, key', hlast⟩ := hsees hplace rfl
    have hget := Dict.get?_eq_some.mpr (List.mem_of_head? hfirst)
    refine .inside (Client.at_thread_self ..) (hinv.lock_eq hplace rfl) ⟨?_, hpositive, key', ?_⟩
    · exact ((hinv.tidy_locked hplace rfl).flags evicted List.not_mem_nil).mpr ⟨key, hget⟩
    · obtain ⟨rest, hitems⟩ := List.head?_eq_some_iff.mp hfirst
      show (s.cache.pop key).items.getLast? = some (key', state)
      unfold Dict.size at hsize
      rw [Dict.items_pop_head hitems]
      rw [hitems] at hlast hsize
      obtain ⟨x, rest', rfl⟩ : ∃ x rest', rest = x :: rest' := by
        cases rest with
        | nil =>
          rw [List.length_singleton] at hsize
          omega
        | cons x rest' => exact ⟨x, rest', rfl⟩
      rw [List.getLast?_cons_cons] at hlast
      exact hlast
  | drop t state evicted hplace =>
    exact .inside (Client.at_thread_self ..) (hinv.lock_eq hplace rfl) (hsees hplace rfl).2
  | trimmed t state hplace hsize => exact .nobody rfl
  | lease t state m m' hplace hm hacquire =>
    refine h.outside (hinv.elsewhere_holds hplace rfl) rfl rfl rfl ?_
    intro i
    refine flag_modify_same fun k hk => ?_
    cases hm.symm.trans hk
    exact (Mapping.Sound.acquire hacquire).2.2.1
  | leaseFailed t state m e hplace hm hacquire =>
    exact h.outside (hinv.elsewhere_holds hplace rfl) rfl rfl rfl fun _ => rfl
  | clear t objectId token mode hplace hlock =>
    refine .inside (Client.at_thread_self ..) rfl ⟨?_, ?_⟩
    · have hdistinct := Dict.nodup_map_values
        (d := s.cache.filter fun e => e.1.selected objectId token mode) id ?_
      · rwa [List.map_id] at hdistinct
      · intro k i k' i' hk hk' hi
        cases hi
        exact (hinv.tidy_unlocked hlock).keyed k k' i
          (Dict.get?_eq_some.mpr (Dict.mem_filter.mp hk).1)
          (Dict.get?_eq_some.mpr (Dict.mem_filter.mp hk').1)
    · intro i hi
      obtain ⟨key, hkey⟩ := Dict.mem_values.mp hi
      exact flag_of_get hinv hlock (Dict.get?_eq_some.mpr (Dict.mem_filter.mp hkey).1)
  | clearNext t state states hplace =>
    obtain ⟨hnodup, hflags⟩ := hsees hplace rfl
    rw [List.nodup_cons] at hnodup
    refine .inside (Client.at_thread_self ..) (hinv.lock_eq hplace rfl) ⟨hnodup.2, ?_⟩
    intro i hi
    have hne : i ≠ state := fun heq => hnodup.1 (heq ▸ hi)
    exact (flag_modify_ne hne).trans (hflags i (List.mem_cons_of_mem _ hi))
  | cleared t hplace => exact .nobody rfl
  | close i o ho hstage => exact h.outside (fun _ _ => rfl) rfl rfl rfl fun _ => rfl
  | release i o ho hstage =>
    exact h.outside (fun _ _ => rfl) rfl rfl rfl fun _ =>
      flag_modify_same fun _ _ => Mapping.maybeClose_cached
  | borrow state m hm hopen =>
    exact h.outside (fun _ _ => rfl) rfl rfl rfl fun _ => flag_modify_same fun _ _ => rfl
  | letGo state =>
    exact h.outside (fun _ _ => rfl) rfl rfl rfl fun _ => flag_modify_same fun _ _ => rfl

theorem Alive.step (h : Alive s) (hinv : Inv s) (hstep : Step s s') : Alive s' := by
  have hfresh : ∀ t i, s'.fresh t = some i → s.fresh t = some i ∨ i = s.mappings.length := by
    intro t i hi
    unfold Client.fresh at hi
    obtain hthread | ⟨u, place, hthread, hmoves⟩ := hstep.moves
    · rw [hthread] at hi
      exact .inl hi
    · rw [hthread] at hi
      by_cases ht : t = u
      · subst ht
        rw [Function.update_self] at hi
        exact hmoves.fresh i hi
      · rw [Function.update_of_ne ht] at hi
        exact .inl hi
  have hmade := fun t i (hi : s.fresh t = some i) => hinv.tidy.made t i hi
  refine ⟨?_, ?_, ?_, ?_⟩
  · intro i m' hm' hcached
    obtain ⟨m, hm, hchange⟩ | ⟨-, rfl⟩ := hstep.changed hm'
    · exact hchange.cached_open (h.cached i m hm) (fun t ht => h.made t i m ht hm) hcached
    · cases hcached
  · intro t i m' hi hm'
    obtain ⟨m, hm, hchange⟩ | ⟨-, rfl⟩ := hstep.changed hm'
    · have hlt := (List.getElem?_eq_some_iff.mp hm).1
      obtain hi | rfl := hfresh t i hi
      · refine hchange.open_of (h.made t i m hi hm) ?_ ?_
        · intro u hdrops
          obtain ⟨hholds, hpending⟩ := Place.pending_of_drops hdrops
          rw [← pending_of_locked ((hinv.locked u).mp hholds)] at hpending
          exact (hmade t i hi).2.1 hpending
        · intro o ho heq
          rw [← heq] at hi
          exact h.unshared t o ho hi
      · exact absurd hlt (Nat.lt_irrefl _)
    · rfl
  · intro t u i hi hgoal
    unfold Client.fresh at hi
    obtain hthread | ⟨v, place, hthread, hmoves⟩ := hstep.moves
    · rw [hthread] at hi hgoal
      exact h.apart t u i hi hgoal
    rw [hthread] at hi hgoal
    by_cases ht : t = v
    · subst ht
      rw [Function.update_self] at hi
      by_cases hu : u = t
      · subst hu
        rw [Function.update_self, Place.goal_of_fresh hi] at hgoal
        cases hgoal
      · rw [Function.update_of_ne hu] at hgoal
        obtain hi | rfl := hmoves.fresh i hi
        · exact h.apart t u i hi hgoal
        · exact absurd (hinv.known u _ hgoal) (Nat.lt_irrefl _)
    · rw [Function.update_of_ne ht] at hi
      by_cases hu : u = v
      · subst hu
        rw [Function.update_self] at hgoal
        obtain ⟨hlt, -, hout⟩ := hmade t i hi
        obtain hgoal | hown | ⟨key, hkey⟩ | rfl := hmoves.goal i hgoal
        · exact h.apart t u i hi hgoal
        · exact ht (hinv.tidy.distinct t u i hi hown)
        · exact hout key hkey
        · exact absurd hlt (Nat.lt_irrefl _)
      · rw [Function.update_of_ne hu] at hgoal
        exact h.apart t u i hi hgoal
  · intro t o ho hi
    obtain ⟨o₀, ho₀, hstate⟩ | ⟨u, hgoal⟩ := hstep.objects ho
    · obtain hi | hi := hfresh t _ hi
      · rw [← hstate] at hi
        exact h.unshared t o₀ ho₀ hi
      · have hlt := hinv.leased.bound o₀ ho₀
        omega
    · obtain hi | hi := hfresh t _ hi
      · exact h.apart t u _ hi hgoal
      · have hlt := hinv.known u _ hgoal
        omega

end Steps

/-! ## Losing the last owner -/

/-- Whoever is about to take its last owner from a mapping that a thread is about to lease, and of
which no buffer is exported, does not take its step here: neither the thread that drops it from the
cache while nobody has a lease, nor the object that has its only lease while it is not cached. -/
structure Spares (s s' : Client T) : Prop where
  dropped : ∀ t u (i : ℕ) m, s.thread t = .leasing i → s.mappings[i]? = some m → m.exports = 0 →
    m.leases = 0 → (s.thread u).drops = some i → s'.thread u = s.thread u
  released : ∀ t (j : ℕ) o m, s.thread t = .leasing o.state → s.mappings[o.state]? = some m →
    m.exports = 0 → m.leases = 1 → m.cached = false → s.objects[j]? = some o →
    o.stage = .closing → s'.objects[j]? = some o

/-- No constructor of a `SharedObject` has raised, and none is about to. -/
structure Succeeds (s : Client T) : Prop where
  acquired : ∀ o ∈ s.objects, o.acquired = true
  leasable : ∀ t i, s.thread t = .leasing i → ∃ m, s.mappings[i]? = some m ∧ m.closed = false

section Owners
variable {s s' : Client T}

/-- A mapping whose flag is cleared was marked, and one whose lease is released was leased. -/
theorem Change.open_spared {t : T} {i : ℕ} {m m' : Mapping} (h : Change s s' i m m') (hinv : Inv s)
    (ht : s.thread t = .leasing i) (hm : s.mappings[i]? = some m) (hopen : m.closed = false)
    (hspares : Spares s s') : m'.closed = false := by
  cases h with
  | same => exact hopen
  | unmarked u hdrops hmoved =>
    refine Mapping.maybeClose_open hopen fun hexports => ?_
    have hleases : m.leases ≠ 0 := fun hzero =>
      hmoved (hspares.dropped t u i m ht hm hexports hzero hdrops)
    simp [Mapping.owned, hleases]
  | marked u key hplace => exact Mapping.maybeClose_open hopen fun _ => rfl
  | leased u m' hplace hacquire =>
    rw [(Mapping.acquire_ok hacquire).2]
    exact hopen
  | released j o ho hstage hstate hmoved =>
    subst hstate
    refine Mapping.maybeClose_open hopen fun hexports => ?_
    by_cases hcached : m.cached = true
    · simp [Mapping.owned, hcached]
    have hleases : m.leases ≠ 1 := fun hone => hmoved
      (hspares.released t j o m ht hm hexports hone (Bool.eq_false_iff.mpr hcached) ho hstage)
    have hpositive : m.leases ≠ 0 := by
      have hmem := List.mem_of_getElem? ho
      have hacquired : o.acquired = true := by
        by_contra hnot
        rw [hinv.leased.failed o hmem (Bool.eq_false_iff.mpr hnot) m hm] at hopen
        cases hopen
      rw [hinv.leased.count o.state m hm]
      intro hzero
      refine List.countP_eq_zero.mp hzero o hmem ?_
      simp [SharedObject.active, hacquired, hstage]
    have hmore : m.leases - 1 ≠ 0 := by omega
    simp [Mapping.owned, Nat.pos_of_ne_zero hpositive, hmore]
  | borrowed => exact hopen
  | letGo => exact hopen

/-! ## Leasing -/

variable [DecidableEq T]

theorem Step.leasing (hstep : Step s s') (hinv : Inv s) (halive : Alive s) (hbusy : Busy s) {t : T}
    {i : ℕ} (h : s'.thread t = .leasing i) :
    s.thread t = .leasing i ∨ ∃ m, s'.mappings[i]? = some m ∧ m.closed = false := by
  have hmove : ∀ {u : T} {place : Place}, Function.update s.thread u place t = .leasing i →
      s.thread t = .leasing i ∨ place = .leasing i := by
    intro u place hplace
    by_cases htu : t = u
    · subst htu
      rw [Function.update_self] at hplace
      exact .inr hplace
    · rw [Function.update_of_ne htu] at hplace
      exact .inl hplace
  cases hstep with
  | hit u key state m hplace hlock hget hm hopen =>
    obtain h | h := hmove h
    · exact .inl h
    · cases h
      exact .inr ⟨m, hm, hopen⟩
  | map u key hplace =>
    obtain h | h := hmove h
    · exact .inl h
    cases key with
    | some key => cases h
    | none =>
      cases h
      refine .inr ⟨.new, ?_, rfl⟩
      show (s.mappings ++ [Mapping.new])[s.mappings.length]? = some .new
      exact List.getElem?_concat_length
  | putNothing u key state hplace hsize =>
    obtain h | h := hmove h
    · exact .inl h
    · cases h
      have hfresh : s.fresh u = some i := by
        unfold Client.fresh
        rw [hplace]
        rfl
      have hm := List.getElem?_eq_getElem (hinv.tidy.made u i hfresh).1
      exact .inr ⟨_, hm, halive.made u i _ hfresh hm⟩
  | trimmed u state hplace hsize =>
    obtain h | h := hmove h
    · exact .inl h
    · cases h
      have hsees := hbusy u (hinv.lock_eq hplace rfl)
      rw [hplace] at hsees
      obtain ⟨-, key, hlast⟩ := hsees
      have hget := Dict.get?_eq_some.mpr (List.mem_of_getLast? hlast)
      have htidy := hinv.tidy_locked hplace rfl
      have hflag := (htidy.flags i List.not_mem_nil).mpr ⟨key, hget⟩
      have hm := List.getElem?_eq_getElem (htidy.bound key i hget)
      unfold Client.flag at hflag
      rw [hm] at hflag
      exact .inr ⟨_, hm, halive.cached i _ hm hflag⟩
  | close j o ho hstage => exact .inl h
  | release j o ho hstage => exact .inl h
  | borrow state m hm hopen => exact .inl h
  | letGo state => exact .inl h
  | _ =>
    obtain h | h := hmove h
    · exact .inl h
    · cases h

theorem Succeeds.step (h : Succeeds s) (hinv : Inv s) (halive : Alive s) (hbusy : Busy s)
    (hstep : Step s s') (hspares : Spares s s') : Succeeds s' := by
  constructor
  · intro o ho
    have hset : ∀ {i : ℕ} {o₀ o₁ : SharedObject}, s.objects[i]? = some o₀ →
        o ∈ s.objects.set i o₁ → o₁.acquired = o₀.acquired → o.acquired = true := by
      intro i o₀ o₁ ho₀ hmem hsame
      obtain hmem | rfl := List.mem_or_eq_of_mem_set hmem
      · exact h.acquired o hmem
      · rw [hsame]
        exact h.acquired o₀ (List.mem_of_getElem? ho₀)
    cases hstep with
    | lease t state m m' hplace hm hacquire =>
      obtain ho | ho := List.mem_append.mp ho
      · exact h.acquired o ho
      · cases List.mem_singleton.mp ho
        rfl
    | leaseFailed t state m e hplace hm hacquire =>
      obtain ⟨m', hm', hopen⟩ := h.leasable t state hplace
      cases hm.symm.trans hm'
      rw [Mapping.acquire_error hacquire] at hopen
      cases hopen
    | close i o₀ ho₀ hstage => exact hset ho₀ ho rfl
    | release i o₀ ho₀ hstage => exact hset ho₀ ho rfl
    | _ => exact h.acquired o ho
  · intro t i ht
    obtain hbefore | hnew := hstep.leasing hinv halive hbusy ht
    · obtain ⟨m, hm, hopen⟩ := h.leasable t i hbefore
      obtain ⟨m', hm', hchange⟩ := hstep.change hm
      exact ⟨m', hm', hchange.open_spared hinv hbefore hm hopen hspares⟩
    · exact hnew

/-- The flag that a thread is to clear is cleared when it moves on. -/
theorem Step.drops (hstep : Step s s') {u : T} {i : ℕ} (hdrops : (s.thread u).drops = some i) :
    s'.thread u = s.thread u ∨ s'.mappings = s.mappings.modify i (Mapping.setCached false) ∧
      ∀ t, t ≠ u → s'.thread t = s.thread t := by
  have hother : ∀ {t : T} {before place : Place}, s.thread t = before → before.drops = none →
      Function.update s.thread t place u = s.thread u := by
    intro t before place hplace hnone
    apply Function.update_of_ne
    intro heq
    subst heq
    rw [hplace, hnone] at hdrops
    cases hdrops
  have hmover : ∀ {t : T} {before place : Place} {state : ℕ}, s.thread t = before →
      before.drops = some state → Function.update s.thread t place u = s.thread u ∨
      s.mappings.modify state (Mapping.setCached false) =
        s.mappings.modify i (Mapping.setCached false) ∧
      ∀ v, v ≠ u → Function.update s.thread t place v = s.thread v := by
    intro t before place state hplace hstate
    by_cases heq : u = t
    · subst heq
      rw [hplace, hstate] at hdrops
      cases hdrops
      exact .inr ⟨rfl, fun v hv => Function.update_of_ne hv ..⟩
    · exact .inl (Function.update_of_ne heq ..)
  cases hstep with
  | request t hplace => exact .inl (hother hplace rfl)
  | openCached t key hplace => exact .inl (hother hplace rfl)
  | miss t key hplace => exact .inl (hother hplace rfl)
  | hit t key state m hplace => exact .inl (hother hplace rfl)
  | stale t key state m hplace => exact .inl (hother hplace rfl)
  | discard t key state hplace => exact hmover hplace rfl
  | requestFailed t key hplace => exact .inl (hother hplace rfl)
  | map t key hplace => exact .inl (hother hplace rfl)
  | putNothing t key state hplace => exact .inl (hother hplace rfl)
  | put t key state hplace => exact .inl (hother hplace rfl)
  | putOver t key state old hplace => exact .inl (hother hplace rfl)
  | replace t key state old hplace => exact hmover hplace rfl
  | mark t key state hplace => exact .inl (hother hplace rfl)
  | insert t key state hplace => exact .inl (hother hplace rfl)
  | evict t state evicted key hplace => exact .inl (hother hplace rfl)
  | drop t state evicted hplace => exact hmover hplace rfl
  | trimmed t state hplace => exact .inl (hother hplace rfl)
  | lease t state m m' hplace => exact .inl (hother hplace rfl)
  | leaseFailed t state m e hplace => exact .inl (hother hplace rfl)
  | clear t objectId token mode hplace => exact .inl (hother hplace rfl)
  | clearNext t state states hplace => exact hmover hplace rfl
  | cleared t hplace => exact .inl (hother hplace rfl)
  | close j o ho hstage => exact .inl rfl
  | release j o ho hstage => exact .inl rfl
  | borrow state m hm hopen => exact .inl rfl
  | letGo state => exact .inl rfl

theorem Step.releases (hstep : Step s s') {j : ℕ} {o : SharedObject}
    (ho : s.objects[j]? = some o) (hstage : o.stage = .closing) :
    s'.objects[j]? = some o ∨
      s'.mappings = s.mappings.modify o.state Mapping.release ∧ s'.thread = s.thread := by
  have hlt := (List.getElem?_eq_some_iff.mp ho).1
  cases hstep with
  | lease t state m m' hplace hm hacquire =>
    exact .inl ((List.getElem?_append_left hlt).trans ho)
  | leaseFailed t state m e hplace hm hacquire =>
    exact .inl ((List.getElem?_append_left hlt).trans ho)
  | close i o' ho' hopen =>
    by_cases heq : i = j
    · subst heq
      cases ho.symm.trans ho'
      cases hstage.symm.trans hopen
    · exact .inl ((List.getElem?_set_ne heq).trans ho)
  | release i o' ho' hclosing =>
    by_cases heq : i = j
    · subst heq
      cases ho.symm.trans ho'
      exact .inr ⟨rfl, rfl⟩
    · exact .inl ((List.getElem?_set_ne heq).trans ho)
  | _ => exact .inl ho

/-- A thread that waits for a lease cannot get it any more when the last owner is lost before. -/
theorem Succeeds.spares (h : Succeeds s') (hstep : Step s s') : Spares s s' := by
  have hnever : ∀ {t : T} {i : ℕ} {m' : Mapping}, s.thread t = .leasing i →
      s'.thread t = s.thread t → s'.mappings[i]? = some m' → m'.closed = false := by
    intro t i m' ht hsame hm'
    obtain ⟨m'', hm'', hopen⟩ := h.leasable t i (hsame.trans ht)
    cases hm'.symm.trans hm''
    exact hopen
  constructor
  · intro t u i m ht hm hexports hleases hdrops
    obtain hstay | ⟨hmappings, hthreads⟩ := hstep.drops hdrops
    · exact hstay
    have htu : t ≠ u := by
      intro heq
      rw [← heq, ht] at hdrops
      cases hdrops
    have hm' : s'.mappings[i]? = some (m.setCached false) := by
      rw [hmappings, List.getElem?_modify, hm]
      simp
    have hclosed : (m.setCached false).closed = true :=
      Mapping.maybeClose_abandoned hexports (by simp [Mapping.owned, hleases])
    have hopen := hnever ht (hthreads t htu) hm'
    rw [hclosed] at hopen
    cases hopen
  · intro t j o m ht hm hexports hleases hcached ho hstage
    obtain hstay | ⟨hmappings, hthreads⟩ := hstep.releases ho hstage
    · exact hstay
    have hm' : s'.mappings[o.state]? = some m.release := by
      rw [hmappings, List.getElem?_modify, hm]
      simp
    have hclosed : m.release.closed = true :=
      Mapping.maybeClose_abandoned hexports (by simp [Mapping.owned, hleases, hcached])
    have hopen := hnever ht (congrFun hthreads t) hm'
    rw [hclosed] at hopen
    cases hopen

end Owners

/-! ## Runs -/

section Runs
variable [DecidableEq T] {cacheSize : ℕ} {transitions : List (Client T × Client T)} {s : Client T}

/-- The event of a step is the step itself. -/
def Transition (s : Client T) (transition : Client T × Client T) (s' : Client T) : Prop :=
  transition = (s, s') ∧ Step s s'

theorem transitions_sound (hrun : Run Transition (Client.new cacheSize) transitions s) :
    Inv s ∧ Alive s ∧ Busy s := by
  refine hrun.invariant (I := fun s => Inv s ∧ Alive s ∧ Busy s) ?_
    ⟨Inv.new cacheSize, Alive.new cacheSize, nofun⟩
  rintro transition s₁ s₂ ⟨hinv, halive, hbusy⟩ ⟨-, hstep⟩
  exact ⟨hinv.step hstep, halive.step hinv hstep, hbusy.step hinv hstep⟩

theorem run_steps (hrun : Run Transition (Client.new cacheSize) transitions s) :
    ∀ transition ∈ transitions, Step transition.1 transition.2 := by
  induction hrun with
  | nil => exact nofun
  | snoc hrun hlast ih =>
    intro transition hmem
    obtain hmem | hmem := List.mem_append.mp hmem
    · exact ih transition hmem
    · cases List.mem_singleton.mp hmem
      obtain ⟨rfl, hstep⟩ := hlast
      exact hstep

/-- Every open gets its lease, in every state of a run, if and only if no step of the run takes its
last owner from a mapping that a thread is about to lease and of which no buffer is exported. -/
theorem opens_succeed_iff (hrun : Run Transition (Client.new cacheSize) transitions s) :
    (∀ transition ∈ transitions, Succeeds transition.2) ↔
      ∀ transition ∈ transitions, Spares transition.1 transition.2 := by
  constructor
  · intro hsucceeds transition hmem
    exact (hsucceeds transition hmem).spares (run_steps hrun transition hmem)
  · intro hspares
    suffices h : Succeeds s ∧ ∀ transition ∈ transitions, Succeeds transition.2 from h.2
    induction hrun with
    | nil => exact ⟨⟨nofun, nofun⟩, nofun⟩
    | snoc hrun hlast ih =>
      obtain ⟨rfl, hstep⟩ := hlast
      obtain ⟨hinv, halive, hbusy⟩ := transitions_sound hrun
      obtain ⟨hbefore, hall⟩ := ih fun transition hmem =>
        hspares transition (List.mem_append_left _ hmem)
      have hafter := hbefore.step hinv halive hbusy hstep
        (hspares _ (List.mem_append_right _ (List.mem_singleton_self _)))
      refine ⟨hafter, ?_⟩
      intro transition hmem
      obtain hmem | hmem := List.mem_append.mp hmem
      · exact hall transition hmem
      · cases List.mem_singleton.mp hmem
        exact hafter

theorem next_transition {s' : Client T} (hrun : Run Transition (Client.new cacheSize) transitions s)
    (hstep : Step s s') :
    Run Transition (Client.new cacheSize) (transitions ++ [(s, s')]) s' :=
  hrun.snoc ⟨rfl, hstep⟩

end Runs

/-- A thread has put a mapping into the cache and is about to take its lease. -/
def aboutToLease :
    {x : List (Client ℕ × Client ℕ) × Client ℕ // Run Transition (.new 1) x.1 x.2} :=
  have hopened := next_transition (.nil : Run Transition (.new 1 : Client ℕ) [] _)
    (.openCached 0 ⟨"o", "t", "read"⟩ rfl)
  have hmissed := next_transition hopened (.miss 0 _ rfl rfl rfl)
  have hmapped := next_transition hmissed (.map 0 _ rfl)
  have hput := next_transition hmapped (.put 0 _ 0 rfl (by decide) rfl (.inl rfl))
  have hmarked := next_transition hput (.mark 0 _ 0 rfl)
  have hinserted := next_transition hmarked (.insert 0 _ 0 rfl)
  have htrimmed := next_transition hinserted (.trimmed 0 0 rfl (by decide))
  ⟨(_, _), htrimmed⟩

/-- A second thread finds the mapping in the cache; the first takes its lease, a third clears the
cache, and the second still gets a lease. -/
theorem opens_succeed_iff_shared : ∃ transitions : List (Client ℕ × Client ℕ),
    ∃ s : Client ℕ, Run Transition (.new 1) transitions s ∧
      s.objects = [⟨0, true, .open⟩, ⟨0, true, .open⟩] ∧ s.hits = 1 ∧ s.cache.items = [] ∧
      ((∀ transition ∈ transitions, Succeeds transition.2) ↔
        ∀ transition ∈ transitions, Spares transition.1 transition.2) := by
  have hlooking := next_transition aboutToLease.2 (.openCached 1 ⟨"o", "t", "read"⟩ rfl)
  have hhit := next_transition hlooking (.hit 1 _ 0 _ rfl rfl rfl rfl rfl)
  have hleased := next_transition hhit (.lease 0 0 _ _ rfl rfl rfl)
  have hclearing := next_transition hleased (.clear 2 none none none rfl rfl)
  have hclosed := next_transition hclearing (.clearNext 2 0 [] rfl)
  have hcleared := next_transition hclosed (.cleared 2 rfl)
  have hleased' := next_transition hcleared (.lease 1 0 _ _ rfl rfl rfl)
  exact ⟨_, _, hleased', rfl, rfl, rfl, opens_succeed_iff hleased'⟩

/-- Before it takes its lease, another thread clears the cache, and the constructor raises. -/
theorem cleared_before_lease : ∃ transitions, ∃ s : Client ℕ,
    Run Transition (.new 1) transitions s ∧ s.objects = [⟨0, false, .open⟩] := by
  have hclearing := next_transition aboutToLease.2 (.clear 1 none none none rfl rfl)
  have hclosed := next_transition hclearing (.clearNext 1 0 [] rfl)
  have hcleared := next_transition hclosed (.cleared 1 rfl)
  have hfailed := next_transition hcleared (.leaseFailed 0 0 _ _ rfl rfl rfl)
  exact ⟨_, _, hfailed, rfl⟩

end Npb.Mstore.Mappings
