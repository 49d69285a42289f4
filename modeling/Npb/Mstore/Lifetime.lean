import Mathlib.Logic.Relation
import Npb.Mstore.Leases

/-! # The lifetime of mappings

Leases and the cache flag together own a mapping. In every state of every run, no mapping is closed
that has a lease, a mapping that has lost its last lease and its place in the cache is closed, and
whenever no cache operation is going on the flags agree with the cache, which is not over its size
(`mapping_lifetime`). -/

namespace Npb.Mstore.Mappings
set_option autoImplicit false

variable {T : Type}

/-! ## The cache and the flags -/

/-- The flags agree with the cache, but for the mappings that a cache operation is still to mark;
a mapping that a thread has made and not yet put into the cache is not in it. -/
structure Tidy (cache : Dict Key ℕ) (flag : ℕ → Bool) (length : ℕ) (pending : List ℕ)
    (fresh : T → Option ℕ) : Prop where
  keyed : ∀ key key' i, cache.get? key = some i → cache.get? key' = some i → key = key'
  bound : ∀ key i, cache.get? key = some i → i < length
  flags : ∀ i, i ∉ pending → (flag i = true ↔ ∃ key, cache.get? key = some i)
  out : ∀ i ∈ pending, i < length ∧ ∀ key, cache.get? key ≠ some i
  made : ∀ t i, fresh t = some i → i < length ∧ i ∉ pending ∧ ∀ key, cache.get? key ≠ some i
  distinct : ∀ t u i, fresh t = some i → fresh u = some i → t = u

section Tidy
variable {cache cache' : Dict Key ℕ} {flag flag' : ℕ → Bool} {length length' : ℕ}
  {pending : List ℕ} {fresh fresh' : T → Option ℕ} {key : Key} {i : ℕ} {t : T}

/-- Nothing happens to the cache; a thread may make a mapping. -/
theorem Tidy.mono (h : Tidy cache flag length pending fresh) (hlength : length ≤ length')
    (hflag : ∀ i, flag' i = flag i)
    (hfresh : ∀ u i, fresh' u = some i →
      fresh u = some i ∨ u = t ∧ i = length ∧ length < length') :
    Tidy cache flag' length' pending fresh' := by
  refine ⟨h.keyed, ?_, ?_, ?_, ?_, ?_⟩
  · exact fun key i hi => (h.bound key i hi).trans_le hlength
  · intro i hi
    rw [hflag]
    exact h.flags i hi
  · intro i hi
    obtain ⟨hlt, hout⟩ := h.out i hi
    exact ⟨hlt.trans_le hlength, hout⟩
  · intro u i hi
    obtain hi | ⟨-, rfl, hlt⟩ := hfresh u i hi
    · obtain ⟨hlt, hout⟩ := h.made u i hi
      exact ⟨hlt.trans_le hlength, hout⟩
    · refine ⟨hlt, ?_, ?_⟩
      · exact fun hi => absurd (h.out _ hi).1 (Nat.lt_irrefl _)
      · exact fun key hi => absurd (h.bound key _ hi) (Nat.lt_irrefl _)
  · intro u v i hu hv
    obtain hu | ⟨rfl, rfl, -⟩ := hfresh u i hu
    · obtain hv | ⟨-, rfl, -⟩ := hfresh v i hv
      · exact h.distinct u v i hu hv
      · exact absurd (h.made u _ hu).1 (Nat.lt_irrefl _)
    · obtain hv | ⟨rfl, -, -⟩ := hfresh v _ hv
      · exact absurd (h.made v _ hv).1 (Nat.lt_irrefl _)
      · rfl

theorem Tidy.lookups (h : Tidy cache flag length pending fresh)
    (hget : ∀ key, cache'.get? key = cache.get? key) : Tidy cache' flag length pending fresh := by
  refine ⟨?_, ?_, ?_, ?_, ?_, h.distinct⟩
  · intro key key' i hi hi'
    rw [hget] at hi hi'
    exact h.keyed key key' i hi hi'
  · intro key i hi
    rw [hget] at hi
    exact h.bound key i hi
  · intro i hi
    rw [h.flags i hi]
    simp only [hget]
  · intro i hi
    obtain ⟨hlt, hout⟩ := h.out i hi
    refine ⟨hlt, fun key => ?_⟩
    rw [hget]
    exact hout key
  · intro u i hi
    obtain ⟨hlt, hpending, hout⟩ := h.made u i hi
    refine ⟨hlt, hpending, fun key => ?_⟩
    rw [hget]
    exact hout key

/-- Items leave the cache; their flags are still to be cleared. -/
theorem Tidy.remove (h : Tidy cache flag length [] fresh)
    (hsub : ∀ key i, cache'.get? key = some i → cache.get? key = some i)
    (hpending : ∀ i, i ∈ pending ↔ ∃ key, cache.get? key = some i ∧ cache'.get? key ≠ some i) :
    Tidy cache' flag length pending fresh := by
  refine ⟨?_, ?_, ?_, ?_, ?_, h.distinct⟩
  · exact fun key key' i hi hi' => h.keyed key key' i (hsub key i hi) (hsub key' i hi')
  · exact fun key i hi => h.bound key i (hsub key i hi)
  · intro i hi
    rw [h.flags i List.not_mem_nil]
    constructor
    · intro hin
      obtain ⟨key, hkey⟩ := hin
      refine ⟨key, ?_⟩
      by_contra hgone
      exact hi ((hpending i).mpr ⟨key, hkey, hgone⟩)
    · intro hin
      obtain ⟨key, hkey⟩ := hin
      exact ⟨key, hsub key i hkey⟩
  · intro i hi
    obtain ⟨key, hkey, hgone⟩ := (hpending i).mp hi
    refine ⟨h.bound key i hkey, ?_⟩
    intro key' hkey'
    rw [h.keyed key key' i hkey (hsub key' i hkey')] at hgone
    exact hgone hkey'
  · intro u i hi
    obtain ⟨hlt, -, hout⟩ := h.made u i hi
    refine ⟨hlt, ?_, fun key hkey => hout key (hsub key i hkey)⟩
    intro hmem
    obtain ⟨key, hkey, -⟩ := (hpending i).mp hmem
    exact hout key hkey

/-- `cache.pop(key)`. -/
theorem Tidy.pop (h : Tidy cache flag length [] fresh) (hget : cache.get? key = some i) :
    Tidy (cache.pop key) flag length [i] fresh := by
  have hsub : ∀ key' j, (cache.pop key).get? key' = some j → cache.get? key' = some j := by
    intro key' j hj
    by_cases heq : key' = key
    · rw [heq, Dict.get?_pop_self] at hj
      cases hj
    · rwa [Dict.get?_pop_of_ne heq] at hj
  refine h.remove hsub fun j => ?_
  rw [List.mem_singleton]
  constructor
  · intro hj
    refine ⟨key, by rw [hj, hget], ?_⟩
    rw [Dict.get?_pop_self]
    exact (Option.some_ne_none j).symm
  · intro hj
    obtain ⟨key', hkey', hgone⟩ := hj
    by_cases heq : key' = key
    · rw [heq, hget] at hkey'
      exact (Option.some.inj hkey').symm
    · rw [Dict.get?_pop_of_ne heq] at hgone
      exact absurd hkey' hgone

theorem Tidy.popNothing (h : Tidy cache flag length [] fresh) (hget : cache.get? key = none) :
    Tidy (cache.pop key) flag length [] fresh := by
  apply h.lookups
  intro key'
  by_cases heq : key' = key
  · rw [heq, Dict.get?_pop_self, hget]
  · exact Dict.get?_pop_of_ne heq

theorem Tidy.settle (h : Tidy cache flag length (i :: pending) fresh) (hflag : flag' i = false)
    (hother : ∀ j, j ≠ i → flag' j = flag j) : Tidy cache flag' length pending fresh := by
  refine ⟨h.keyed, h.bound, ?_, ?_, ?_, h.distinct⟩
  · intro j hj
    by_cases hji : j = i
    · subst hji
      rw [hflag]
      constructor
      · intro hfalse
        cases hfalse
      · intro hin
        obtain ⟨key, hkey⟩ := hin
        exact absurd hkey ((h.out j List.mem_cons_self).2 key)
    · rw [hother j hji]
      apply h.flags
      intro hmem
      obtain hmem | hmem := List.mem_cons.mp hmem
      · exact hji hmem
      · exact hj hmem
  · exact fun j hj => h.out j (List.mem_cons_of_mem _ hj)
  · intro u j hj
    obtain ⟨hlt, hpending, hout⟩ := h.made u j hj
    exact ⟨hlt, fun hmem => hpending (List.mem_cons_of_mem _ hmem), hout⟩

theorem Tidy.mark (h : Tidy cache flag length [] fresh) (hi : fresh t = some i)
    (hother : ∀ j, j ≠ i → flag' j = flag j)
    (hfresh : ∀ u j, fresh' u = some j → u ≠ t ∧ fresh u = some j) :
    Tidy cache flag' length [i] fresh' := by
  obtain ⟨hlt, -, hout⟩ := h.made t i hi
  refine ⟨h.keyed, h.bound, ?_, ?_, ?_, ?_⟩
  · intro j hj
    rw [hother j (fun hji => hj (List.mem_singleton.mpr hji))]
    exact h.flags j List.not_mem_nil
  · intro j hj
    rw [List.mem_singleton] at hj
    subst hj
    exact ⟨hlt, hout⟩
  · intro u j hj
    obtain ⟨hu, hj⟩ := hfresh u j hj
    obtain ⟨hjlt, -, hjout⟩ := h.made u j hj
    refine ⟨hjlt, ?_, hjout⟩
    intro hmem
    rw [List.mem_singleton] at hmem
    subst hmem
    exact hu (h.distinct u t j hj hi)
  · exact fun u v j hu hv => h.distinct u v j (hfresh u j hu).2 (hfresh v j hv).2

/-- `cache[key] = state`. -/
theorem Tidy.insert (h : Tidy cache flag length [i] fresh) (hflag : flag i = true)
    (hget : cache.get? key = none) : Tidy (cache.set key i) flag length [] fresh := by
  obtain ⟨hlt, hout⟩ := h.out i (List.mem_singleton_self i)
  have hcases : ∀ key' j, (cache.set key i).get? key' = some j →
      key' = key ∧ j = i ∨ key' ≠ key ∧ j ≠ i ∧ cache.get? key' = some j := by
    intro key' j hj
    by_cases heq : key' = key
    · rw [heq, Dict.get?_set_self] at hj
      exact .inl ⟨heq, (Option.some.inj hj).symm⟩
    · rw [Dict.get?_set_of_ne heq] at hj
      refine .inr ⟨heq, ?_, hj⟩
      intro hji
      rw [hji] at hj
      exact hout key' hj
  refine ⟨?_, ?_, ?_, fun j hj => absurd hj List.not_mem_nil, ?_, h.distinct⟩
  · intro key₁ key₂ j h₁ h₂
    obtain ⟨rfl, rfl⟩ | ⟨-, hne, h₁⟩ := hcases key₁ j h₁
    · obtain ⟨rfl, -⟩ | ⟨-, hne, -⟩ := hcases key₂ _ h₂
      · rfl
      · exact absurd rfl hne
    · obtain ⟨-, rfl⟩ | ⟨-, -, h₂⟩ := hcases key₂ j h₂
      · exact absurd rfl hne
      · exact h.keyed key₁ key₂ j h₁ h₂
  · intro key' j hj
    obtain ⟨-, rfl⟩ | ⟨-, -, hj⟩ := hcases key' j hj
    · exact hlt
    · exact h.bound key' j hj
  · intro j _
    by_cases hji : j = i
    · subst hji
      exact ⟨fun _ => ⟨key, Dict.get?_set_self⟩, fun _ => hflag⟩
    · rw [h.flags j (fun hmem => hji (List.mem_singleton.mp hmem))]
      constructor
      · intro hin
        obtain ⟨key', hkey'⟩ := hin
        have hne : key' ≠ key := by
          intro heq
          rw [heq, hget] at hkey'
          cases hkey'
        exact ⟨key', (Dict.get?_set_of_ne hne).trans hkey'⟩
      · intro hin
        obtain ⟨key', hkey'⟩ := hin
        obtain ⟨-, heq⟩ | ⟨-, -, hkey'⟩ := hcases key' j hkey'
        · exact absurd heq hji
        · exact ⟨key', hkey'⟩
  · intro u j hj
    obtain ⟨hjlt, hpending, hjout⟩ := h.made u j hj
    refine ⟨hjlt, List.not_mem_nil, ?_⟩
    intro key' hkey'
    obtain ⟨-, heq⟩ | ⟨-, -, hkey'⟩ := hcases key' j hkey'
    · exact hpending (List.mem_singleton.mpr heq)
    · exact hjout key' hkey'

/-- `clear_cache` takes the selected items out of the cache. -/
theorem Tidy.clear (h : Tidy cache flag length [] fresh) {p : Key × ℕ → Bool} :
    Tidy (cache.filter fun e => !p e) flag length (cache.filter p).values fresh := by
  refine h.remove ?_ fun i => ?_
  · intro key i hi
    rw [Dict.get?_eq_some] at hi ⊢
    exact (Dict.mem_filter.mp hi).1
  · rw [Dict.mem_values]
    constructor
    · intro hi
      obtain ⟨key, hkey⟩ := hi
      obtain ⟨hmem, hp⟩ := Dict.mem_filter.mp hkey
      refine ⟨key, Dict.get?_eq_some.mpr hmem, ?_⟩
      intro hkept
      have hnot := (Dict.mem_filter.mp (Dict.get?_eq_some.mp hkept)).2
      rw [hp] at hnot
      cases hnot
    · intro hi
      obtain ⟨key, hkey, hgone⟩ := hi
      refine ⟨key, Dict.mem_filter.mpr ⟨Dict.get?_eq_some.mp hkey, ?_⟩⟩
      by_contra hp
      apply hgone
      rw [Dict.get?_eq_some, Dict.mem_filter]
      exact ⟨Dict.get?_eq_some.mp hkey, by simpa using hp⟩

end Tidy

/-! ## The invariant -/

/-- The cache lock is held at these places. -/
def Place.holds : Place → Bool
  | .discarding .. | .replacing .. | .marking .. | .inserting .. | .trimming _ | .evicting ..
  | .clearing _ => true
  | _ => false

/-- The mappings whose flags a thread is still to set. -/
def Place.pending : Place → List ℕ
  | .discarding _ state => [state]
  | .replacing _ _ old => [old]
  | .inserting _ state => [state]
  | .evicting _ evicted => [evicted]
  | .clearing states => states
  | _ => []

/-- The mapping that a thread has made and not yet cached. -/
def Place.fresh : Place → Option ℕ
  | .putting _ state | .replacing _ state _ | .marking _ state => some state
  | _ => none

def Place.trims : Place → Bool
  | .trimming _ | .evicting .. => true
  | _ => false

/-- The mapping that a thread is going to lease. -/
def Place.goal : Place → Option ℕ
  | .inserting _ state | .trimming state | .evicting state _ | .leasing state => some state
  | _ => none

/-- What a thread in a cache operation has seen to. -/
def Place.Held (cache : Dict Key ℕ) (flag : ℕ → Bool) : Place → Prop
  | .replacing key _ _ | .marking key _ => cache.get? key = none
  | .inserting key state => cache.get? key = none ∧ flag state = true
  | _ => True

theorem Place.pending_of_not_holds {place : Place} (h : place.holds = false) :
    place.pending = [] := by
  cases place <;> first | rfl | cases h

theorem Place.trims_of_not_holds {place : Place} (h : place.holds = false) :
    place.trims = false := by
  cases place <;> first | rfl | cases h

namespace Client

def flag (s : Client T) (state : ℕ) : Bool := s.mappings[state]?.any Mapping.cached

def pending (s : Client T) : List ℕ := s.lock.elim [] fun t => (s.thread t).pending

def trims (s : Client T) : Bool := s.lock.elim false fun t => (s.thread t).trims

def fresh (s : Client T) (t : T) : Option ℕ := (s.thread t).fresh

end Client

structure Inv (s : Client T) : Prop where
  tidy : Tidy s.cache s.flag s.mappings.length s.pending s.fresh
  leased : Leased s.mappings s.objects
  locked : ∀ t, (s.thread t).holds = true ↔ s.lock = some t
  held : ∀ t, s.lock = some t → (s.thread t).Held s.cache s.flag
  known : ∀ t i, (s.thread t).goal = some i → i < s.mappings.length
  within : s.trims = false → s.cache.size ≤ s.cacheSize

section Flags
variable {mappings : List Mapping} {i j : ℕ} {f : Mapping → Mapping}

theorem flag_modify_same (hf : ∀ m, mappings[i]? = some m → (f m).cached = m.cached) :
    (mappings.modify i f)[j]?.any Mapping.cached = mappings[j]?.any Mapping.cached := by
  rw [List.getElem?_modify]
  by_cases hij : i = j
  · subst hij
    cases hm : mappings[i]? with
    | none => rfl
    | some m => simp [hf m hm]
  · cases mappings[j]? <;> simp [hij]

theorem flag_modify_ne (hij : j ≠ i) :
    (mappings.modify i f)[j]?.any Mapping.cached = mappings[j]?.any Mapping.cached := by
  rw [List.getElem?_modify]
  cases mappings[j]? <;> simp [hij.symm]

theorem flag_setCached_false :
    (mappings.modify i (Mapping.setCached false))[i]?.any Mapping.cached = false := by
  rw [List.getElem?_modify]
  cases mappings[i]? <;> simp [Mapping.setCached]

theorem flag_setCached_true (hi : i < mappings.length) :
    (mappings.modify i (Mapping.setCached true))[i]?.any Mapping.cached = true := by
  rw [List.getElem?_modify, List.getElem?_eq_getElem hi]
  simp [Mapping.setCached]

theorem flag_append :
    (mappings ++ [Mapping.new])[i]?.any Mapping.cached = mappings[i]?.any Mapping.cached := by
  by_cases hi : i < mappings.length
  · rw [List.getElem?_append_left hi]
  · rw [List.getElem?_append_right (Nat.le_of_not_lt hi),
      List.getElem?_eq_none (Nat.le_of_not_lt hi), List.getElem?_singleton]
    by_cases heq : i - mappings.length = 0
    · rw [if_pos heq]
      rfl
    · rw [if_neg heq]

end Flags

/-! ## Kinds of steps -/

section Kinds
variable {s s' : Client T} {t : T} {place : Place}

theorem pending_of_unlocked (h : s.lock = none) : s.pending = [] := by
  unfold Client.pending
  rw [h]
  rfl

theorem pending_of_locked (h : s.lock = some t) : s.pending = (s.thread t).pending := by
  unfold Client.pending
  rw [h]
  rfl

theorem Inv.elsewhere (h : Inv s) (hthread : s'.thread = s.thread) (hlock : s'.lock = s.lock)
    (hcache : s'.cache = s.cache) (hsize : s'.cacheSize = s.cacheSize)
    (hflag : ∀ i, s'.flag i = s.flag i) (hlength : s'.mappings.length = s.mappings.length)
    (hleased : Leased s'.mappings s'.objects) : Inv s' := by
  have hpending : s'.pending = s.pending := by
    unfold Client.pending
    rw [hlock, hthread]
  have hfresh : s'.fresh = s.fresh := by
    unfold Client.fresh
    rw [hthread]
  have hflags : s'.flag = s.flag := funext hflag
  refine ⟨?_, hleased, ?_, ?_, ?_, ?_⟩
  · rw [hcache, hflags, hlength, hpending, hfresh]
    exact h.tidy
  · intro t
    rw [hthread, hlock]
    exact h.locked t
  · intro t ht
    rw [hlock] at ht
    rw [hthread, hcache, hflags]
    exact h.held t ht
  · intro t i hi
    rw [hthread] at hi
    rw [hlength]
    exact h.known t i hi
  · intro htrims
    rw [hcache, hsize]
    apply h.within
    unfold Client.trims at htrims ⊢
    rwa [hlock, hthread] at htrims

theorem trims_of_unlocked (h : s.lock = none) : s.trims = false := by
  unfold Client.trims
  rw [h]
  rfl

theorem trims_of_locked (h : s.lock = some t) : s.trims = (s.thread t).trims := by
  unfold Client.trims
  rw [h]
  rfl

/-- A thread holds the lock where its place says so. -/
theorem Inv.lock_eq (h : Inv s) {place : Place} (hplace : s.thread t = place)
    (hholds : place.holds = true) : s.lock = some t := by
  rw [← h.locked t, hplace]
  exact hholds

theorem Inv.tidy_unlocked (h : Inv s) (hlock : s.lock = none) :
    Tidy s.cache s.flag s.mappings.length [] s.fresh := by
  have htidy := h.tidy
  rwa [pending_of_unlocked hlock] at htidy

theorem Inv.tidy_locked (h : Inv s) {place : Place} (hplace : s.thread t = place)
    (hholds : place.holds = true) :
    Tidy s.cache s.flag s.mappings.length place.pending s.fresh := by
  have htidy := h.tidy
  rwa [pending_of_locked (h.lock_eq hplace hholds), hplace] at htidy

theorem Inv.within_unlocked (h : Inv s) (hlock : s.lock = none) : s.cache.size ≤ s.cacheSize :=
  h.within (trims_of_unlocked hlock)

theorem Inv.within_locked (h : Inv s) {place : Place} (hplace : s.thread t = place)
    (hholds : place.holds = true) (htrims : place.trims = false) :
    s.cache.size ≤ s.cacheSize := by
  apply h.within
  rw [trims_of_locked (h.lock_eq hplace hholds), hplace]
  exact htrims

/-- A thread takes the cache lock, goes on under it or leaves it. -/
theorem Inv.inside [DecidableEq T] (h : Inv s)
    (hthread : s'.thread = Function.update s.thread t place)
    (hbefore : s.lock = none ∨ s.lock = some t)
    (hlock : s'.lock = if place.holds then some t else none)
    (hlength : s.mappings.length ≤ s'.mappings.length)
    (htidy : Tidy s'.cache s'.flag s'.mappings.length place.pending s'.fresh)
    (hleased : Leased s'.mappings s'.objects) (hheld : place.Held s'.cache s'.flag)
    (hknown : ∀ i, place.goal = some i → i < s'.mappings.length)
    (hwithin : place.trims = false → s'.cache.size ≤ s'.cacheSize) : Inv s' := by
  have hself : s'.thread t = place := by
    rw [hthread, Function.update_self]
  have hother : ∀ u, u ≠ t → s'.thread u = s.thread u := by
    intro u hu
    rw [hthread, Function.update_of_ne hu]
  have hout : ∀ u, u ≠ t → s.lock ≠ some u ∧ s'.lock ≠ some u := by
    intro u hu
    refine ⟨?_, ?_⟩
    · obtain hbefore | hbefore := hbefore
      · rw [hbefore]
        exact (Option.some_ne_none u).symm
      · rw [hbefore]
        exact fun heq => hu (Option.some.inj heq).symm
    · rw [hlock]
      split
      · exact fun heq => hu (Option.some.inj heq).symm
      · exact (Option.some_ne_none u).symm
  refine ⟨?_, hleased, ?_, ?_, ?_, ?_⟩
  · by_cases hholds : place.holds = true
    · rw [if_pos hholds] at hlock
      rw [pending_of_locked hlock, hself]
      exact htidy
    · have hholds := Bool.eq_false_iff.mpr hholds
      rw [hholds] at hlock
      rw [pending_of_unlocked hlock]
      rw [Place.pending_of_not_holds hholds] at htidy
      exact htidy
  · intro u
    by_cases hu : u = t
    · rw [hu, hself, hlock]
      by_cases hholds : place.holds = true
      · simp [hholds]
      · simp [hholds]
    · rw [hother u hu, h.locked u]
      exact ⟨fun heq => absurd heq (hout u hu).1, fun heq => absurd heq (hout u hu).2⟩
  · intro u hu
    by_cases hut : u = t
    · rw [hut, hself]
      exact hheld
    · exact absurd hu (hout u hut).2
  · intro u i hi
    by_cases hu : u = t
    · rw [hu, hself] at hi
      exact hknown i hi
    · rw [hother u hu] at hi
      exact (h.known u i hi).trans_le hlength
  · intro htrims
    by_cases hholds : place.holds = true
    · rw [if_pos hholds] at hlock
      rw [trims_of_locked hlock, hself] at htrims
      exact hwithin htrims
    · exact hwithin (Place.trims_of_not_holds (Bool.eq_false_iff.mpr hholds))

/-- A thread goes on without the cache lock. -/
theorem Inv.outside [DecidableEq T] (h : Inv s)
    (hthread : s'.thread = Function.update s.thread t place) (hlock : s'.lock = s.lock)
    (hcache : s'.cache = s.cache) (hsize : s'.cacheSize = s.cacheSize)
    (hbefore : (s.thread t).holds = false) (hafter : place.holds = false)
    (hlength : s.mappings.length ≤ s'.mappings.length) (hflag : ∀ i, s'.flag i = s.flag i)
    (hfresh : ∀ i, place.fresh = some i → (s.thread t).fresh = some i ∨
      i = s.mappings.length ∧ s.mappings.length < s'.mappings.length)
    (hleased : Leased s'.mappings s'.objects)
    (hknown : ∀ i, place.goal = some i → i < s'.mappings.length) : Inv s' := by
  have hself : s'.thread t = place := by
    rw [hthread, Function.update_self]
  have hother : ∀ u, u ≠ t → s'.thread u = s.thread u := by
    intro u hu
    rw [hthread, Function.update_of_ne hu]
  have hholder : s.lock ≠ some t := by
    rw [ne_eq, ← h.locked t, hbefore]
    exact Bool.false_ne_true
  have hsame : ∀ u, s.lock = some u → s'.thread u = s.thread u := by
    intro u hu
    apply hother
    intro heq
    rw [heq] at hu
    exact hholder hu
  have hpending : s'.pending = s.pending := by
    cases hl : s.lock with
    | none => rw [pending_of_unlocked hl, pending_of_unlocked (hlock.trans hl)]
    | some u => rw [pending_of_locked hl, pending_of_locked (hlock.trans hl), hsame u hl]
  refine ⟨?_, hleased, ?_, ?_, ?_, ?_⟩
  · rw [hcache, hpending]
    refine h.tidy.mono hlength hflag ?_ (t := t)
    intro u i hi
    unfold Client.fresh at hi ⊢
    by_cases hu : u = t
    · rw [hu, hself] at hi
      obtain hi | hnew := hfresh i hi
      · exact .inl (by rw [hu, hi])
      · exact .inr ⟨hu, hnew⟩
    · rw [hother u hu] at hi
      exact .inl hi
  · intro u
    rw [hlock]
    by_cases hu : u = t
    · rw [hu, hself, hafter]
      exact ⟨nofun, fun heq => absurd heq hholder⟩
    · rw [hother u hu]
      exact h.locked u
  · intro u hu
    rw [hlock] at hu
    rw [hsame u hu, hcache, show s'.flag = s.flag from funext hflag]
    exact h.held u hu
  · intro u i hi
    by_cases hu : u = t
    · rw [hu, hself] at hi
      exact hknown i hi
    · rw [hother u hu] at hi
      exact (h.known u i hi).trans_le hlength
  · intro htrims
    rw [hcache, hsize]
    apply h.within
    cases hl : s.lock with
    | none => exact trims_of_unlocked hl
    | some u =>
      rw [trims_of_locked hl, ← hsame u hl, ← trims_of_locked (hlock.trans hl)]
      exact htrims

end Kinds

/-! ## Runs -/

theorem Inv.new (cacheSize : ℕ) : Inv (Client.new cacheSize : Client T) := by
  refine ⟨⟨nofun, nofun, ?_, nofun, nofun, nofun⟩, ⟨nofun, nofun, nofun, nofun⟩, ?_, nofun, nofun,
    fun _ => Nat.zero_le _⟩
  · intro i _
    exact ⟨nofun, fun hin => by obtain ⟨key, hkey⟩ := hin; cases hkey⟩
  · exact fun t => ⟨nofun, nofun⟩

section Steps
variable [DecidableEq T] {s s' : Client T} {t : T}

theorem fresh_sub {place : Place} (hthread : s'.thread = Function.update s.thread t place)
    (hplace : ∀ i, place.fresh = some i → (s.thread t).fresh = some i) (u : T) (i : ℕ)
    (hi : s'.fresh u = some i) :
    s.fresh u = some i ∨ u = t ∧ i = s.mappings.length ∧ s.mappings.length < s.mappings.length := by
  refine .inl ?_
  unfold Client.fresh at hi ⊢
  rw [hthread] at hi
  by_cases hu : u = t
  · subst hu
    rw [Function.update_self] at hi
    exact hplace i hi
  · rwa [Function.update_of_ne hu] at hi

theorem Inv.settle (h : Inv s) {before place : Place} {state : ℕ}
    (hplace : s.thread t = before) (hholds : before.holds = true)
    (hpending : before.pending = state :: place.pending)
    (hthread : s'.thread = Function.update s.thread t place)
    (hmappings : s'.mappings = s.mappings.modify state (Mapping.setCached false))
    (hobjects : s'.objects = s.objects) (hcache : s'.cache = s.cache)
    (hsize : s'.cacheSize = s.cacheSize) (hlock : s'.lock = if place.holds then some t else none)
    (hfresh : ∀ i, place.fresh = some i → before.fresh = some i)
    (hheld : place.Held s'.cache s'.flag)
    (hknown : ∀ i, place.goal = some i → before.goal = some i)
    (htrims : place.trims = false → before.trims = false) : Inv s' := by
  have hlength : s'.mappings.length = s.mappings.length := by
    rw [hmappings, List.length_modify]
  have htidy := h.tidy_locked hplace hholds
  rw [hpending] at htidy
  refine h.inside hthread (.inr (h.lock_eq hplace hholds)) hlock hlength.ge ?_ ?_ hheld ?_ ?_
  · rw [hcache, hlength]
    have hsettled : Tidy s.cache s'.flag s.mappings.length place.pending s.fresh := by
      refine htidy.settle ?_ ?_
      · unfold Client.flag
        rw [hmappings]
        exact flag_setCached_false
      · intro j hj
        unfold Client.flag
        rw [hmappings]
        exact flag_modify_ne hj
    refine hsettled.mono (Nat.le_refl _) (fun _ => rfl) (fresh_sub hthread ?_)
    rw [hplace]
    exact hfresh
  · rw [hmappings, hobjects]
    exact h.leased.modify (Mapping.keeps_setCached false)
  · intro i hi
    rw [hlength]
    apply h.known t
    rw [hplace]
    exact hknown i hi
  · intro hplacetrims
    rw [hcache, hsize]
    exact h.within_locked hplace hholds (htrims hplacetrims)

theorem Inv.map (h : Inv s) {key : Option Key} (hplace : s.thread t = .requesting key) :
    Inv ({ s with mappings := s.mappings ++ [Mapping.new] }.at t
      (match key with
        | some key => .putting key s.mappings.length
        | none => .leasing s.mappings.length)) := by
  have hholds : (s.thread t).holds = false := by
    rw [hplace]
    rfl
  have hlength : (s.mappings ++ [Mapping.new]).length = s.mappings.length + 1 :=
    List.length_append
  have hlt : s.mappings.length < (s.mappings ++ [Mapping.new]).length := by
    rw [hlength]
    exact Nat.lt_succ_self _
  cases key with
  | some key =>
    refine h.outside rfl rfl rfl rfl hholds rfl hlt.le (fun _ => flag_append) ?_ h.leased.append
      nofun
    intro i hi
    cases hi
    exact .inr ⟨rfl, hlt⟩
  | none =>
    refine h.outside rfl rfl rfl rfl hholds rfl hlt.le (fun _ => flag_append) nofun h.leased.append
      ?_
    intro i hi
    cases hi
    exact hlt

theorem Inv.step (h : Inv s) (hstep : Step s s') : Inv s' := by
  have hholds : ∀ t place, s.thread t = place → place.holds = false →
      (s.thread t).holds = false := by
    intro t place hplace hholds
    rw [hplace]
    exact hholds
  have hfresh : ∀ {t : T} {place : Place}, s.thread t = place → ∀ i, place.fresh = some i →
      s.fresh t = some i := by
    intro t place hplace i hi
    unfold Client.fresh
    rw [hplace]
    exact hi
  cases hstep with
  | request t hplace =>
    exact h.outside rfl rfl rfl rfl (hholds t _ hplace rfl) rfl (Nat.le_refl _) (fun _ => rfl)
      nofun h.leased nofun
  | openCached t key hplace =>
    exact h.outside rfl rfl rfl rfl (hholds t _ hplace rfl) rfl (Nat.le_refl _) (fun _ => rfl)
      nofun h.leased nofun
  | miss t key hplace hlock hget =>
    exact h.outside rfl rfl rfl rfl (hholds t _ hplace rfl) rfl (Nat.le_refl _) (fun _ => rfl)
      nofun h.leased nofun
  | hit t key state m hplace hlock hget hm hopen =>
    have htidy := h.tidy_unlocked hlock
    refine h.inside rfl (.inl hlock) hlock (Nat.le_refl _) ?_ h.leased trivial ?_ ?_
    · exact (htidy.lookups fun _ => Dict.get?_moveToEnd hget).mono (Nat.le_refl _) (fun _ => rfl)
        (fresh_sub rfl nofun)
    · intro i hi
      cases hi
      exact htidy.bound key state hget
    · exact fun _ => (Dict.size_moveToEnd_le hget).trans (h.within_unlocked hlock)
  | stale t key state m hplace hlock hget hm hclosed =>
    refine h.inside rfl (.inl hlock) rfl (Nat.le_refl _) ?_ h.leased trivial nofun ?_
    · exact ((h.tidy_unlocked hlock).pop hget).mono (Nat.le_refl _) (fun _ => rfl)
        (fresh_sub rfl nofun)
    · exact fun _ => Dict.size_pop_le.trans (h.within_unlocked hlock)
  | discard t key state hplace =>
    exact h.settle hplace rfl rfl rfl rfl rfl rfl rfl rfl nofun trivial nofun fun _ => rfl
  | requestFailed t key hplace =>
    exact h.outside rfl rfl rfl rfl (hholds t _ hplace rfl) rfl (Nat.le_refl _) (fun _ => rfl)
      nofun h.leased nofun
  | map t key hplace => exact h.map hplace
  | putNothing t key state hplace hsize =>
    refine h.outside rfl rfl rfl rfl (hholds t _ hplace rfl) rfl (Nat.le_refl _) (fun _ => rfl)
      nofun h.leased ?_
    intro i hi
    cases hi
    exact (h.tidy.made t state (hfresh hplace state rfl)).1
  | put t key state hplace hsize hlock hnew =>
    have htidy := h.tidy_unlocked hlock
    have hget : s.cache.get? key = none := by
      obtain hget | hget := hnew
      · exact hget
      · exact absurd hget ((htidy.made t state (hfresh hplace state rfl)).2.2 key)
    refine h.inside rfl (.inl hlock) rfl (Nat.le_refl _) ?_ h.leased Dict.get?_pop_self nofun ?_
    · refine (htidy.popNothing hget).mono (Nat.le_refl _) (fun _ => rfl) (fresh_sub rfl ?_)
      rw [hplace]
      exact fun i hi => hi
    · exact fun _ => Dict.size_pop_le.trans (h.within_unlocked hlock)
  | putOver t key state old hplace hsize hlock hget hne =>
    refine h.inside rfl (.inl hlock) rfl (Nat.le_refl _) ?_ h.leased Dict.get?_pop_self nofun ?_
    · refine ((h.tidy_unlocked hlock).pop hget).mono (Nat.le_refl _) (fun _ => rfl)
        (fresh_sub rfl ?_)
      rw [hplace]
      exact fun i hi => hi
    · exact fun _ => Dict.size_pop_le.trans (h.within_unlocked hlock)
  | replace t key state old hplace =>
    have hheld := h.held t (h.lock_eq hplace rfl)
    rw [hplace] at hheld
    exact h.settle hplace rfl rfl rfl rfl rfl rfl rfl (h.lock_eq hplace rfl) (fun _ hi => hi) hheld
      nofun fun _ => rfl
  | mark t key state hplace =>
    have hheld := h.held t (h.lock_eq hplace rfl)
    rw [hplace] at hheld
    have htidy := h.tidy_locked hplace rfl
    have hstate := hfresh hplace state rfl
    have hlt := (htidy.made t state hstate).1
    have hlength : (s.mappings.modify state (Mapping.setCached true)).length = s.mappings.length :=
      List.length_modify ..
    refine h.inside rfl (.inr (h.lock_eq hplace rfl)) (h.lock_eq hplace rfl) hlength.ge ?_
      (h.leased.modify (Mapping.keeps_setCached true)) ⟨hheld, flag_setCached_true hlt⟩ ?_ ?_
    · show Tidy _ _ (s.mappings.modify state (Mapping.setCached true)).length _ _
      rw [hlength]
      refine htidy.mark hstate (fun j hj => flag_modify_ne hj) ?_
      intro u j hj
      have hu : u ≠ t := by
        intro hu
        subst hu
        unfold Client.fresh at hj
        rw [Client.at_thread_self] at hj
        cases hj
      unfold Client.fresh at hj
      rw [Client.at_thread_ne hu] at hj
      exact ⟨hu, hj⟩
    · intro i hi
      cases hi
      exact hlt.trans_le hlength.ge
    · exact fun _ => h.within_locked hplace rfl rfl
  | insert t key state hplace =>
    have hheld := h.held t (h.lock_eq hplace rfl)
    rw [hplace] at hheld
    refine h.inside rfl (.inr (h.lock_eq hplace rfl)) (h.lock_eq hplace rfl) (Nat.le_refl _) ?_
      h.leased trivial ?_ nofun
    · exact ((h.tidy_locked hplace rfl).insert hheld.2 hheld.1).mono (Nat.le_refl _)
        (fun _ => rfl) (fresh_sub rfl nofun)
    · intro i hi
      exact h.known t i (by rw [hplace]; exact hi)
  | evict t state evicted key hplace hsize hfirst =>
    have hget := Dict.get?_eq_some.mpr (List.mem_of_head? hfirst)
    refine h.inside rfl (.inr (h.lock_eq hplace rfl)) (h.lock_eq hplace rfl) (Nat.le_refl _) ?_
      h.leased trivial ?_ nofun
    · exact ((h.tidy_locked hplace rfl).pop hget).mono (Nat.le_refl _) (fun _ => rfl)
        (fresh_sub rfl nofun)
    · intro i hi
      exact h.known t i (by rw [hplace]; exact hi)
  | drop t state evicted hplace =>
    exact h.settle hplace rfl rfl rfl rfl rfl rfl rfl (h.lock_eq hplace rfl) nofun trivial
      (fun _ hi => hi) nofun
  | trimmed t state hplace hsize =>
    refine h.inside rfl (.inr (h.lock_eq hplace rfl)) rfl (Nat.le_refl _) ?_ h.leased trivial ?_
      fun _ => hsize
    · exact (h.tidy_locked hplace rfl).mono (Nat.le_refl _) (fun _ => rfl) (fresh_sub rfl nofun)
    · intro i hi
      exact h.known t i (by rw [hplace]; exact hi)
  | lease t state m m' hplace hm hacquire =>
    refine h.outside rfl rfl rfl rfl (hholds t _ hplace rfl) rfl (List.length_modify ..).ge ?_ nofun
      (h.leased.lease hm hacquire) nofun
    intro i
    refine flag_modify_same fun k hk => ?_
    rw [hm] at hk
    cases hk
    exact (Mapping.Sound.acquire hacquire).2.2.1
  | leaseFailed t state m e hplace hm hacquire =>
    exact h.outside rfl rfl rfl rfl (hholds t _ hplace rfl) rfl (Nat.le_refl _) (fun _ => rfl)
      nofun (h.leased.fail hm (Mapping.acquire_error hacquire)) nofun
  | clear t objectId token mode hplace hlock =>
    refine h.inside rfl (.inl hlock) rfl (Nat.le_refl _) ?_ h.leased trivial nofun ?_
    · exact (h.tidy_unlocked hlock).clear.mono (Nat.le_refl _) (fun _ => rfl) (fresh_sub rfl nofun)
    · exact fun _ => (Dict.size_filter_le _).trans (h.within_unlocked hlock)
  | clearNext t state states hplace =>
    exact h.settle hplace rfl rfl rfl rfl rfl rfl rfl (h.lock_eq hplace rfl) nofun trivial nofun
      fun _ => rfl
  | cleared t hplace =>
    refine h.inside rfl (.inr (h.lock_eq hplace rfl)) rfl (Nat.le_refl _) ?_ h.leased trivial nofun
      fun _ => h.within_locked hplace rfl rfl
    exact (h.tidy_locked hplace rfl).mono (Nat.le_refl _) (fun _ => rfl) (fresh_sub rfl nofun)
  | close i o ho hstage =>
    exact h.elsewhere rfl rfl rfl rfl (fun _ => rfl) rfl (h.leased.close ho hstage)
  | release i o ho hstage =>
    exact h.elsewhere rfl rfl rfl rfl
      (fun _ => flag_modify_same fun _ _ => Mapping.maybeClose_cached) (List.length_modify ..)
      (h.leased.release ho hstage)
  | borrow state m hm hopen =>
    exact h.elsewhere rfl rfl rfl rfl (fun _ => flag_modify_same fun _ _ => rfl)
      (List.length_modify ..) (h.leased.modify Mapping.keeps_borrow)
  | letGo state =>
    exact h.elsewhere rfl rfl rfl rfl (fun _ => flag_modify_same fun _ _ => rfl)
      (List.length_modify ..) (h.leased.modify Mapping.keeps_letGo)

end Steps

/-- What can be said of the mappings of a client at any moment. -/
structure Lifetime (s : Client T) : Prop where
  leased : ∀ o ∈ s.objects, o.acquired = true → o.stage ≠ .closed →
    ∃ m, s.mappings[o.state]? = some m ∧ m.closed = false
  flags : s.lock = none → ∀ (i : ℕ) m, s.mappings[i]? = some m →
    (m.cached = true ↔ ∃ key, s.cache.get? key = some i)
  size : s.lock = none → s.cache.size ≤ s.cacheSize
  gone : ∀ (i : ℕ) m, s.mappings[i]? = some m → m.retired = true →
    (∀ o ∈ s.objects, o.state = i → o.acquired = true → o.stage = .closed) →
    m.cached = false → m.kept = false → m.closed = true

theorem Inv.lifetime {s : Client T} (h : Inv s) : Lifetime s := by
  refine ⟨?_, ?_, h.within_unlocked, ?_⟩
  · intro o ho hacquired hstage
    have hlt := h.leased.bound o ho
    have hm := List.getElem?_eq_getElem hlt
    refine ⟨_, hm, ?_⟩
    by_contra hclosed
    rw [Bool.not_eq_false] at hclosed
    have hnone := (h.leased.sound _ _ hm).free hclosed
    rw [h.leased.count _ _ hm] at hnone
    have hfree := List.countP_eq_zero.mp hnone o ho
    unfold SharedObject.active at hfree
    simp [hacquired, hstage] at hfree
  · intro hlock i m hm
    have hflag := (h.tidy_unlocked hlock).flags i List.not_mem_nil
    unfold Client.flag at hflag
    rw [hm] at hflag
    exact hflag
  · intro i m hm hretired hobjects hcached hkept
    refine (h.leased.sound i m hm).gone hretired ?_ hcached hkept
    rw [h.leased.count i m hm]
    refine List.countP_eq_zero.mpr ?_
    intro o ho hactive
    unfold SharedObject.active at hactive
    simp only [Bool.and_eq_true, decide_eq_true_eq] at hactive
    obtain ⟨⟨hacquired, hstage⟩, hstate⟩ := hactive
    exact hstage (hobjects o ho hstate hacquired)

/-- Mappings live as long as they are owned, in every interleaving. -/
theorem mapping_lifetime [DecidableEq T] {cacheSize : ℕ} {s : Client T}
    (hrun : Relation.ReflTransGen Step (Client.new cacheSize) s) : Lifetime s := by
  have h : Inv s := by
    induction hrun with
    | refl => exact Inv.new cacheSize
    | tail _ hlast ih => exact ih.step hlast
  exact h.lifetime

/-- One mapping is opened, cached and leased. -/
theorem mapping_lifetime_cached : ∃ s : Client ℕ, s.objects = [⟨0, true, .open⟩] ∧
    s.cache.get? ⟨"o", "t", "read"⟩ = some 0 ∧ Lifetime s := by
  have hopened := Relation.ReflTransGen.single
    (@Step.openCached ℕ _ (.new 1) 0 ⟨"o", "t", "read"⟩ rfl)
  have hmissed := hopened.tail (.miss 0 _ rfl rfl rfl)
  have hmapped := hmissed.tail (.map 0 _ rfl)
  have hput := hmapped.tail (.put 0 _ 0 rfl (by decide) rfl (.inl rfl))
  have hmarked := hput.tail (.mark 0 _ 0 rfl)
  have hinserted := hmarked.tail (.insert 0 _ 0 rfl)
  have htrimmed := hinserted.tail (.trimmed 0 0 rfl (by decide))
  have hleased := htrimmed.tail (.lease 0 0 _ _ rfl rfl rfl)
  exact ⟨_, rfl, rfl, mapping_lifetime hleased⟩

end Npb.Mstore.Mappings
