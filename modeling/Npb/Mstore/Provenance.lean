import Npb.Mstore.Mappings

/-! # Where a mapping comes from

The cache of a client stands between its threads and the server: a mapping that one thread has been
given for an object, a token and a mode is handed on without asking again. Whatever the threads do,
nobody is handed a mapping that the server was asked for with another object, token or mode
(`provenance`). -/

namespace Npb.Mstore.Mappings
set_option autoImplicit false

variable {T : Type}

/-- A client with its history: the arguments of each thread's call of `open` or `create`, those with
which the server was asked for each mapping, and those of the calls that have made the objects. -/
structure Traced (T : Type) where
  client : Client T
  wanted : T → Key
  made : List Key
  given : List Key

/-- The arguments of the first calls do not matter. -/
def Traced.new (cacheSize : ℕ) (wanted : T → Key) : Traced T := ⟨.new cacheSize, wanted, [], []⟩

section Steps
variable [DecidableEq T]

/-- One step of the client, written down. -/
inductive Traced.Step (s : Traced T) : Traced T → Prop
  | call (t : T) (key : Key) (place : Place) (hidle : s.client.thread t = .idle)
    (hplace : place = .requesting none ∨ place = .looking key) :
    Step s ⟨s.client.at t place, Function.update s.wanted t key, s.made, s.given⟩
  | map (t : T) (key : Option Key) (client : Client T)
    (hplace : s.client.thread t = .requesting key) (hmoved : client.thread t ≠ .requesting key)
    (hstep : Mappings.Step s.client client)
    (hnew : client.mappings.length = s.client.mappings.length + 1) :
    Step s ⟨client, s.wanted, s.made ++ [s.wanted t], s.given⟩
  | construct (t : T) (state : ℕ) (client : Client T)
    (hplace : s.client.thread t = .leasing state) (hmoved : client.thread t ≠ .leasing state)
    (hstep : Mappings.Step s.client client) :
    Step s ⟨client, s.wanted, s.made, s.given ++ [s.wanted t]⟩
  | go (client : Client T) (hstep : Mappings.Step s.client client)
    (hcalls : ∀ t, s.client.thread t = .idle → (∀ key, client.thread t ≠ .requesting key) ∧
      ∀ key, client.thread t ≠ .looking key)
    (hmappings : client.mappings.length = s.client.mappings.length)
    (hobjects : client.objects.length = s.client.objects.length) :
    Step s ⟨client, s.wanted, s.made, s.given⟩

end Steps

/-! ## What is known of each mapping -/

/-- A thread that has a mapping at hand has it for the arguments of its call. -/
def Knows (made : List Key) (wanted : Key) : Place → Prop
  | .looking key | .discarding key _ | .requesting (some key) => wanted = key
  | .putting key i | .replacing key i _ | .marking key i | .inserting key i =>
    wanted = key ∧ made[i]? = some key
  | .trimming i | .evicting i _ | .leasing i => made[i]? = some wanted
  | .idle | .requesting none | .clearing _ => True

/-- The mappings of the cache, of the threads and of the objects were all made for the arguments
under which they are found. -/
structure Provenance (s : Traced T) : Prop where
  made : s.made.length = s.client.mappings.length
  given : s.given.length = s.client.objects.length
  cached : ∀ key i, s.client.cache.get? key = some i → s.made[i]? = some key
  knows : ∀ t, Knows s.made (s.wanted t) (s.client.thread t)
  object : ∀ (j : ℕ) o, s.client.objects[j]? = some o →
    ∃ key, s.given[j]? = some key ∧ s.made[o.state]? = some key

theorem Provenance.new (cacheSize : ℕ) (wanted : T → Key) :
    Provenance (Traced.new cacheSize wanted) where
  made := rfl
  given := rfl
  cached key i h := by cases h
  knows t := trivial
  object j o h := by cases h

theorem Knows.mono {made : List Key} {wanted : Key} {place : Place} (h : Knows made wanted place)
    (key : Key) : Knows (made ++ [key]) wanted place := by
  have hgrow : ∀ {i : ℕ} {k : Key}, made[i]? = some k → (made ++ [key])[i]? = some k := by
    intro i k hk
    rw [List.getElem?_append_left (List.getElem?_eq_some_iff.mp hk).1, hk]
  cases place with
  | putting | replacing | marking | inserting => exact h.imp_right hgrow
  | trimming | evicting | leasing => exact hgrow h
  | requesting key => cases key <;> exact h
  | idle | looking | discarding | clearing => exact h

section Moves
variable {s : Traced T} {client : Client T}

theorem Provenance.sub (h : Provenance s) {cache : Dict Key ℕ}
    (hsub : ∀ key i, cache.get? key = some i → s.client.cache.get? key = some i) (key : Key) (i : ℕ)
    (hget : cache.get? key = some i) : s.made[i]? = some key :=
  h.cached key i (hsub key i hget)

theorem Provenance.here (h : Provenance s) {t : T} {place : Place}
    (hplace : s.client.thread t = place) : Knows s.made (s.wanted t) place := by
  rw [← hplace]
  exact h.knows t

theorem get?_of_pop {cache : Dict Key ℕ} {key k : Key} {i : ℕ}
    (h : (cache.pop key).get? k = some i) : cache.get? k = some i := by
  by_cases hk : k = key
  · rw [hk, Dict.get?_pop_self] at h
    cases h
  · rwa [Dict.get?_pop_of_ne hk] at h

variable [DecidableEq T]

theorem Provenance.move (h : Provenance s) (t : T) {place : Place}
    (hthread : client.thread = Function.update s.client.thread t place)
    (hknows : Knows s.made (s.wanted t) place)
    (hcache : ∀ key i, client.cache.get? key = some i → s.made[i]? = some key)
    (hmappings : client.mappings.length = s.client.mappings.length)
    (hobjects : client.objects = s.client.objects) :
    Provenance ⟨client, s.wanted, s.made, s.given⟩ where
  made := h.made.trans hmappings.symm
  given := by rw [hobjects]; exact h.given
  cached := hcache
  knows u := by
    show Knows s.made (s.wanted u) (client.thread u)
    rw [hthread]
    by_cases hu : u = t
    · rw [hu, Function.update_self]
      exact hknows
    · rw [Function.update_of_ne hu]
      exact h.knows u
  object := by
    show ∀ (j : ℕ) o, client.objects[j]? = some o → _
    rw [hobjects]
    exact h.object

omit [DecidableEq T] in
theorem Provenance.rest (h : Provenance s) (hthread : client.thread = s.client.thread)
    (hcache : client.cache = s.client.cache)
    (hmappings : client.mappings.length = s.client.mappings.length)
    (hlength : client.objects.length = s.client.objects.length)
    (hobjects : ∀ (j : ℕ) o, client.objects[j]? = some o →
      ∃ o', s.client.objects[j]? = some o' ∧ o'.state = o.state) :
    Provenance ⟨client, s.wanted, s.made, s.given⟩ where
  made := h.made.trans hmappings.symm
  given := h.given.trans hlength.symm
  cached := by
    show ∀ key i, client.cache.get? key = some i → _
    rw [hcache]
    exact h.cached
  knows u := by
    show Knows s.made (s.wanted u) (client.thread u)
    rw [hthread]
    exact h.knows u
  object j o ho := by
    obtain ⟨o', ho', hstate⟩ := hobjects j o ho
    rw [← hstate]
    exact h.object j o' ho'

/-- The stage of an object is not part of where its mapping comes from. -/
theorem state_of_set {objects : List SharedObject} {i j : ℕ} {o o' : SharedObject} {stage : Stage}
    (ho : objects[i]? = some o) (ho' : (objects.set i { o with stage := stage })[j]? = some o') :
    ∃ o'', objects[j]? = some o'' ∧ o''.state = o'.state := by
  by_cases hij : i = j
  · subst hij
    rw [List.getElem?_set_self (List.getElem?_eq_some_iff.mp ho).1] at ho'
    cases ho'
    exact ⟨o, ho, rfl⟩
  · rw [List.getElem?_set_ne hij] at ho'
    exact ⟨o', ho', rfl⟩

theorem Provenance.go (h : Provenance s) (hstep : Mappings.Step s.client client)
    (hcalls : ∀ t, s.client.thread t = .idle → (∀ key, client.thread t ≠ .requesting key) ∧
      ∀ key, client.thread t ≠ .looking key)
    (hmappings : client.mappings.length = s.client.mappings.length)
    (hobjects : client.objects.length = s.client.objects.length) :
    Provenance ⟨client, s.wanted, s.made, s.given⟩ := by
  cases hstep with
  | request t hplace => exact absurd Client.at_thread_self ((hcalls t hplace).1 none)
  | openCached t key hplace => exact absurd Client.at_thread_self ((hcalls t hplace).2 key)
  | map => simp [Client.at] at hmappings
  | lease => simp [Client.at] at hobjects
  | leaseFailed => simp [Client.at] at hobjects
  | miss t key hplace =>
    have hwanted : s.wanted t = key := h.here hplace
    exact h.move t rfl hwanted h.cached rfl rfl
  | hit t key state m hplace hlock hget =>
    have hwanted : s.wanted t = key := h.here hplace
    refine h.move t rfl ?_ (h.sub fun k i hi => ?_) rfl rfl
    · rw [Knows, hwanted]
      exact h.cached key state hget
    · have hi : (s.client.cache.moveToEnd key state).get? k = some i := hi
      rwa [Dict.get?_moveToEnd hget] at hi
  | stale t _ _ _ hplace | put t _ _ hplace | putOver t _ _ _ hplace | evict t _ _ _ hplace =>
    have hknows := h.here hplace
    exact h.move t rfl hknows (h.sub fun k i hi => get?_of_pop hi) rfl rfl
  | discard t _ _ hplace | replace t _ _ _ hplace | mark t _ _ hplace | drop t _ _ hplace =>
    have hknows := h.here hplace
    exact h.move t rfl hknows h.cached (by simp [Client.at, Client.change]) rfl
  | requestFailed t key hplace => exact h.move t rfl trivial h.cached rfl rfl
  | putNothing t key state hplace =>
    obtain ⟨hwanted, hmade⟩ := h.here hplace
    exact h.move t rfl (by rw [Knows, hwanted]; exact hmade) h.cached rfl rfl
  | insert t key state hplace =>
    obtain ⟨hwanted, hmade⟩ := h.here hplace
    refine h.move t rfl (by rw [Knows, hwanted]; exact hmade) (fun k i hi => ?_) rfl rfl
    have hi : (s.client.cache.set key state).get? k = some i := hi
    rw [Dict.get?_set] at hi
    by_cases hkey : k = key
    · rw [if_pos hkey] at hi
      cases hi
      rwa [hkey]
    · rw [if_neg hkey] at hi
      exact h.cached k i hi
  | trimmed t state hplace =>
    have hmade : s.made[state]? = some (s.wanted t) := h.here hplace
    exact h.move t rfl hmade h.cached rfl rfl
  | clear t objectId token mode hplace =>
    refine h.move t rfl trivial (h.sub fun k i hi => ?_) rfl rfl
    exact Dict.get?_eq_some.mpr (Dict.mem_filter.mp (Dict.get?_eq_some.mp hi)).1
  | clearNext t state states hplace =>
    exact h.move t rfl trivial h.cached (by simp [Client.at, Client.change]) rfl
  | cleared t hplace => exact h.move t rfl trivial h.cached rfl rfl
  | close i o ho => exact h.rest rfl rfl rfl (by simp) fun j o' ho' => state_of_set ho ho'
  | release i o ho =>
    exact h.rest rfl rfl (by simp [Client.change]) (by simp) fun j o' ho' => state_of_set ho ho'
  | borrow | letGo => exact h.rest rfl rfl (by simp [Client.change]) rfl fun j o ho => ⟨o, ho, rfl⟩

/-- A thread is given a mapping that the server was asked for with the arguments of its call. -/
theorem Provenance.map (h : Provenance s) {t : T} {key : Option Key}
    (hplace : s.client.thread t = .requesting key) (hmoved : client.thread t ≠ .requesting key)
    (hstep : Mappings.Step s.client client)
    (hnew : client.mappings.length = s.client.mappings.length + 1) :
    Provenance ⟨client, s.wanted, s.made ++ [s.wanted t], s.given⟩ := by
  have hlast : (s.made ++ [s.wanted t])[s.client.mappings.length]? = some (s.wanted t) := by
    rw [← h.made, List.getElem?_append_right le_rfl, Nat.sub_self]
    rfl
  have hgrow : ∀ (i : ℕ) k, s.made[i]? = some k → (s.made ++ [s.wanted t])[i]? = some k := by
    intro i k hk
    rw [List.getElem?_append_left (List.getElem?_eq_some_iff.mp hk).1, hk]
  cases hstep with
  | map u key' hplace' =>
    have hu : t = u := by
      by_contra hne
      exact hmoved ((Client.at_thread_ne hne).trans hplace)
    subst hu
    cases hplace.symm.trans hplace'
    have hknows := h.here hplace
    refine ⟨by simp [Client.at, h.made], h.given, fun k i hi => hgrow i k (h.cached k i hi),
      fun u => ?_, fun j o ho => ?_⟩
    · show Knows (s.made ++ [s.wanted t]) (s.wanted u) (Function.update s.client.thread t _ u)
      by_cases hu : u = t
      · rw [hu, Function.update_self]
        cases key with
        | none => exact hlast
        | some k =>
          have hwanted : s.wanted t = k := hknows
          exact ⟨hwanted, hwanted ▸ hlast⟩
      · rw [Function.update_of_ne hu]
        exact (h.knows u).mono _
    · obtain ⟨k, hk, hmade⟩ := h.object j o ho
      exact ⟨k, hk, hgrow _ _ hmade⟩
  | _ => simp [Client.at, Client.change] at hnew

/-- The constructor of a `SharedObject` runs for the thread whose mapping it gets. -/
theorem Provenance.construct (h : Provenance s) {t : T} {state : ℕ}
    (hplace : s.client.thread t = .leasing state) (hmoved : client.thread t ≠ .leasing state)
    (hstep : Mappings.Step s.client client) :
    Provenance ⟨client, s.wanted, s.made, s.given ++ [s.wanted t]⟩ := by
  have hmade : s.made[state]? = some (s.wanted t) := h.here hplace
  have hobject : ∀ (acquired : Bool) (j : ℕ) o,
      (s.client.objects ++ [SharedObject.mk state acquired .open])[j]? = some o →
        ∃ key, (s.given ++ [s.wanted t])[j]? = some key ∧ s.made[o.state]? = some key := by
    intro acquired j o ho
    obtain hlt | hge := Nat.lt_or_ge j s.client.objects.length
    · rw [List.getElem?_append_left hlt] at ho
      obtain ⟨key, hkey, hmade⟩ := h.object j o ho
      refine ⟨key, ?_, hmade⟩
      rw [List.getElem?_append_left (List.getElem?_eq_some_iff.mp hkey).1, hkey]
    · have hj : j = s.client.objects.length := by
        have hlt := (List.getElem?_eq_some_iff.mp ho).1
        simp at hlt
        omega
      subst hj
      rw [List.getElem?_append_right le_rfl, Nat.sub_self] at ho
      cases ho
      refine ⟨s.wanted t, ?_, hmade⟩
      rw [← h.given, List.getElem?_append_right le_rfl, Nat.sub_self]
      rfl
  have hself : ∀ u {place : Place}, client.thread = Function.update s.client.thread u place →
      t = u := by
    intro u place hthread
    by_contra hne
    rw [hthread, Function.update_of_ne hne] at hmoved
    exact hmoved hplace
  have hidle : ∀ v, Knows s.made (s.wanted v) (Function.update s.client.thread t .idle v) := by
    intro v
    by_cases hv : v = t
    · rw [hv, Function.update_self]
      trivial
    · rw [Function.update_of_ne hv]
      exact h.knows v
  cases hstep with
  | lease u state' m m' hplace' =>
    obtain rfl := hself u rfl
    cases hplace.symm.trans hplace'
    exact ⟨by simp [Client.at, Client.change, h.made], by simp [Client.at, h.given], h.cached,
      hidle, hobject true⟩
  | leaseFailed u state' m e hplace' =>
    obtain rfl := hself u rfl
    cases hplace.symm.trans hplace'
    exact ⟨h.made, by simp [Client.at, h.given], h.cached, hidle, hobject false⟩
  | close | release | borrow | letGo => exact absurd hplace hmoved
  | request u hplace' | openCached u _ hplace' | miss u _ hplace' | hit u _ _ _ hplace'
  | stale u _ _ _ hplace' | discard u _ _ hplace' | requestFailed u _ hplace' | map u _ hplace'
  | putNothing u _ _ hplace' | put u _ _ hplace' | putOver u _ _ _ hplace'
  | replace u _ _ _ hplace' | mark u _ _ hplace' | insert u _ _ hplace' | evict u _ _ _ hplace'
  | drop u _ _ hplace' | trimmed u _ hplace' | clear u _ _ _ hplace' | clearNext u _ _ hplace'
  | cleared u hplace' =>
    obtain rfl := hself u rfl
    cases hplace.symm.trans hplace'

theorem Provenance.step {s' : Traced T} (h : Provenance s) (hstep : s.Step s') : Provenance s' := by
  cases hstep with
  | call t key place hidle hplace =>
    refine ⟨h.made, h.given, h.cached, fun u => ?_, h.object⟩
    show Knows s.made (Function.update s.wanted t key u) (Function.update s.client.thread t place u)
    by_cases hu : u = t
    · rw [hu, Function.update_self, Function.update_self]
      obtain rfl | rfl := hplace
      · trivial
      · rfl
    · rw [Function.update_of_ne hu, Function.update_of_ne hu]
      exact h.knows u
  | map t key client hplace hmoved hstep hnew => exact h.map hplace hmoved hstep hnew
  | construct t state client hplace hmoved hstep => exact h.construct hplace hmoved hstep
  | go client hstep hcalls hmappings hobjects => exact h.go hstep hcalls hmappings hobjects

end Moves

/-! ## Runs -/

section Runs
variable [DecidableEq T] {s : Traced T} {client : Client T}

theorem Traced.Step.on (t : T) {place : Place} (hbusy : s.client.thread t ≠ .idle)
    (hstep : Mappings.Step s.client client)
    (hthread : client.thread = Function.update s.client.thread t place)
    (hmappings : client.mappings.length = s.client.mappings.length)
    (hobjects : client.objects.length = s.client.objects.length) :
    s.Step ⟨client, s.wanted, s.made, s.given⟩ := by
  refine .go client hstep (fun u hidle => ?_) hmappings hobjects
  have hu : u ≠ t := by
    rintro rfl
    exact hbusy hidle
  rw [hthread, Function.update_of_ne hu, hidle]
  simp

theorem Traced.Step.aside (hstep : Mappings.Step s.client client)
    (hthread : client.thread = s.client.thread)
    (hmappings : client.mappings.length = s.client.mappings.length)
    (hobjects : client.objects.length = s.client.objects.length) :
    s.Step ⟨client, s.wanted, s.made, s.given⟩ := by
  refine .go client hstep (fun u hidle => ?_) hmappings hobjects
  rw [hthread, hidle]
  simp

/-- Every step of the client can be written down. -/
theorem Traced.Step.exists_of_step (h : Mappings.Step s.client client) :
    ∃ s' : Traced T, s'.client = client ∧ s.Step s' := by
  have hstep := h
  cases h with
  | request t hplace => exact ⟨_, rfl, .call t (s.wanted t) _ hplace (.inl rfl)⟩
  | openCached t key hplace => exact ⟨_, rfl, .call t key _ hplace (.inr rfl)⟩
  | map t key hplace =>
    refine ⟨_, rfl, .map t key _ hplace ?_ hstep (by simp [Client.at])⟩
    rw [Client.at_thread_self]
    cases key <;> simp
  | lease t state m m' hplace =>
    exact ⟨_, rfl, .construct t state _ hplace (by simp) hstep⟩
  | leaseFailed t state m e hplace =>
    exact ⟨_, rfl, .construct t state _ hplace (by simp) hstep⟩
  | clear t objectId token mode hplace =>
    refine ⟨_, rfl, .go _ hstep (fun u hidle => ?_) rfl rfl⟩
    by_cases hu : u = t
    · rw [hu, Client.at_thread_self]
      simp
    · rw [Client.at_thread_ne hu]
      show (∀ key, s.client.thread u ≠ _) ∧ ∀ key, s.client.thread u ≠ _
      rw [hidle]
      simp
  | close | release | borrow | letGo =>
    exact ⟨_, rfl, .aside hstep rfl (by simp [Client.change]) (by simp [Client.change])⟩
  | miss t _ hplace | hit t _ _ _ hplace | stale t _ _ _ hplace | discard t _ _ hplace
  | requestFailed t _ hplace | putNothing t _ _ hplace | put t _ _ hplace
  | putOver t _ _ _ hplace | replace t _ _ _ hplace | mark t _ _ hplace | insert t _ _ hplace
  | evict t _ _ _ hplace | drop t _ _ hplace | trimmed t _ hplace | clearNext t _ _ hplace
  | cleared t hplace =>
    have hbusy : s.client.thread t ≠ .idle := by
      rw [hplace]
      simp
    exact ⟨_, rfl, .on t hbusy hstep rfl (by simp [Client.at, Client.change]) rfl⟩

theorem Traced.exists_of_run {cacheSize : ℕ} (wanted : T → Key)
    (h : Relation.ReflTransGen Mappings.Step (Client.new cacheSize) client) :
    ∃ s : Traced T, s.client = client ∧
      Relation.ReflTransGen Traced.Step (.new cacheSize wanted) s := by
  induction h with
  | refl => exact ⟨_, rfl, .refl⟩
  | tail _ hlast ih =>
    obtain ⟨s, rfl, hrun⟩ := ih
    obtain ⟨s', rfl, hstep⟩ := Traced.Step.exists_of_step hlast
    exact ⟨s', rfl, hrun.tail hstep⟩

theorem Provenance.run {cacheSize : ℕ} {wanted : T → Key}
    (h : Relation.ReflTransGen Traced.Step (.new cacheSize wanted) s) : Provenance s := by
  induction h with
  | refl => exact .new cacheSize wanted
  | tail _ hlast ih => exact ih.step hlast

/-- In every run of the threads, each mapping of the cache was made for the key that it is kept
under, and each object that a call has made has the mapping of a request with the very object, token
and mode of that call. -/
theorem provenance {cacheSize : ℕ} {wanted : T → Key}
    (hrun : Relation.ReflTransGen Traced.Step (.new cacheSize wanted) s) :
    s.made.length = s.client.mappings.length ∧ s.given.length = s.client.objects.length ∧
      (∀ key i, s.client.cache.get? key = some i → s.made[i]? = some key) ∧
      ∀ (j : ℕ) o, s.client.objects[j]? = some o →
        ∃ key, s.given[j]? = some key ∧ s.made[o.state]? = some key :=
  have h := Provenance.run hrun
  ⟨h.made, h.given, h.cached, h.object⟩

end Runs

/-- A mapping that one thread has opened and cached is handed to another. -/
theorem provenance_shared : ∃ s : Traced Bool, s.client.hits = 1 ∧
    s.client.objects.map (·.state) = [0, 0] ∧ s.given = [⟨"o", "t", "read"⟩, ⟨"o", "t", "read"⟩] ∧
    s.made = [⟨"o", "t", "read"⟩] ∧
    ∀ (j : ℕ) o, s.client.objects[j]? = some o →
      ∃ key, s.given[j]? = some key ∧ s.made[o.state]? = some key := by
  obtain ⟨key, hkey⟩ : ∃ key : Key, key = ⟨"o", "t", "read"⟩ := ⟨_, rfl⟩
  rw [← hkey]
  have hrun := Relation.ReflTransGen.refl (r := Traced.Step) (a := .new 1 fun _ : Bool => key)
  have hrun := hrun.tail (.call false key (.looking key) rfl (.inr rfl))
  have hrun := hrun.tail (.on false (by simp) (.miss false key (by simp) rfl rfl) rfl rfl rfl)
  have hrun := hrun.tail (.map false (some key) _ (by simp) (by simp) (.map false (some key)
    (by simp)) rfl)
  have hrun := hrun.tail (.on false (by simp) (.put false key 0 rfl one_ne_zero rfl
    (.inl rfl)) rfl rfl rfl)
  have hrun := hrun.tail (.on false (by simp) (.mark false key 0 (by simp)) rfl rfl rfl)
  have hrun := hrun.tail (.on false (by simp) (.insert false key 0 (by simp)) rfl rfl rfl)
  have hrun := hrun.tail (.on false (by simp) (.trimmed false 0 (by simp) le_rfl) rfl rfl rfl)
  have hrun := hrun.tail (.construct false 0 _ (by simp) (by simp)
    (.lease false 0 _ _ (by simp) rfl rfl))
  have hrun := hrun.tail (.call true key (.looking key) rfl (.inr rfl))
  have hfound : ((Dict.pop .empty key).set key 0).get? key = some 0 := by
    rw [Dict.get?_set, if_pos rfl]
  have hrun := hrun.tail (.on true (by simp) (.hit true key 0 _ (by simp) rfl hfound rfl rfl) rfl
    rfl rfl)
  have hrun := hrun.tail (.construct true 0 _ (by simp) (by simp)
    (.lease true 0 _ _ (by simp) rfl rfl))
  exact ⟨_, rfl, rfl, rfl, rfl, (provenance hrun).2.2.2⟩

end Npb.Mstore.Mappings
