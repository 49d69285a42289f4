import Npb.Mstore.Mappings

/-! # Leases of mappings

What the steps on one mapping preserve, whatever the cache does: the count of its leases is the
number of objects that have one, and nobody leaves it open without owning it. -/

namespace Npb.Mstore.Mappings
set_option autoImplicit false

/-! ## One mapping -/

namespace Mapping

/-- A closed mapping has no lease, and a mapping that nobody owns any more is closed, unless an
exported buffer has kept it open. -/
structure Sound (m : Mapping) : Prop where
  free : m.closed = true → m.leases = 0
  gone : m.retired = true → m.leases = 0 → m.cached = false → m.kept = false → m.closed = true

section Laws
variable {m m' : Mapping}

theorem sound_new : new.Sound := ⟨nofun, nofun⟩

@[simp] theorem maybeClose_leases : m.maybeClose.leases = m.leases := by
  unfold maybeClose
  split
  · rfl
  · split <;> rfl

@[simp] theorem maybeClose_cached : m.maybeClose.cached = m.cached := by
  unfold maybeClose
  split
  · rfl
  · split <;> rfl

theorem maybeClose_closed (h : m.closed = true) : m.maybeClose.closed = true := by
  unfold maybeClose
  rw [if_pos (.inr (.inr h))]
  exact h

/-- After an attempt to close it, a mapping that nobody owns is closed or kept. -/
theorem sound_maybeClose (h : m.closed = true → m.leases = 0) : m.maybeClose.Sound := by
  unfold maybeClose
  by_cases howned : m.cached = true ∨ m.leases ≠ 0 ∨ m.closed = true
  · rw [if_pos howned]
    refine ⟨h, ?_⟩
    intro _ hleases hcached _
    obtain howned | howned | hclosed := howned
    · rw [hcached] at howned
      cases howned
    · exact absurd hleases howned
    · exact hclosed
  · rw [if_neg howned]
    push Not at howned
    by_cases hexports : m.exports ≠ 0
    · rw [if_pos hexports]
      exact ⟨h, fun _ _ _ hkept => by cases hkept⟩
    · rw [if_neg hexports]
      exact ⟨fun _ => howned.2.1, fun _ _ _ _ => rfl⟩

theorem Sound.acquire (hacquire : m.acquire = .ok m') :
    m'.Sound ∧ m'.leases = m.leases + 1 ∧ m'.cached = m.cached ∧ m.closed = false := by
  unfold Mapping.acquire at hacquire
  by_cases hclosed : m.closed = true
  · rw [if_pos hclosed] at hacquire
    cases hacquire
  · rw [if_neg hclosed] at hacquire
    cases hacquire
    have hopen : m.closed = false := Bool.eq_false_iff.mpr hclosed
    refine ⟨⟨fun h => absurd h hclosed, ?_⟩, rfl, rfl, hopen⟩
    intro _ hleases
    exact absurd hleases (Nat.succ_ne_zero _)

theorem acquire_error {e : PyError} (h : m.acquire = .error e) : m.closed = true := by
  unfold Mapping.acquire at h
  by_cases hclosed : m.closed = true
  · exact hclosed
  · rw [if_neg hclosed] at h
    cases h

theorem Sound.release (h : m.Sound) : m.release.Sound := by
  apply sound_maybeClose
  intro hclosed
  have hleases := h.free hclosed
  simp [hleases]

theorem release_leases : m.release.leases = m.leases - 1 := by
  unfold release
  rw [maybeClose_leases]
  by_cases h : 0 < m.leases
  · simp [h]
  · simp [h]
    omega

/-- The steps on a mapping that leave its leases alone. -/
structure Keeps (f : Mapping → Mapping) : Prop where
  sound : ∀ m, m.Sound → (f m).Sound
  leases : ∀ m, (f m).leases = m.leases
  closed : ∀ m, m.closed = true → (f m).closed = true

theorem keeps_setCached (cached : Bool) : Keeps (setCached cached) :=
  ⟨fun _ h => sound_maybeClose h.free, fun _ => maybeClose_leases, fun _ h => maybeClose_closed h⟩

theorem keeps_borrow : Keeps borrow := ⟨fun _ h => ⟨h.free, h.gone⟩, fun _ => rfl, fun _ h => h⟩

theorem keeps_letGo : Keeps letGo := ⟨fun _ h => ⟨h.free, h.gone⟩, fun _ => rfl, fun _ h => h⟩

end Laws
end Mapping

/-! ## Leases -/

/-- How many objects have a lease of a mapping. -/
def leasesOf (objects : List SharedObject) (state : ℕ) : ℕ :=
  objects.countP fun o => o.active && o.state = state

/-- The count of each mapping is right, and each mapping is sound. -/
structure Leased (mappings : List Mapping) (objects : List SharedObject) : Prop where
  bound : ∀ o ∈ objects, o.state < mappings.length
  failed : ∀ o ∈ objects, o.acquired = false →
    ∀ m : Mapping, mappings[o.state]? = some m → m.closed = true
  count : ∀ (i : ℕ) (m : Mapping), mappings[i]? = some m → m.leases = leasesOf objects i
  sound : ∀ (i : ℕ) (m : Mapping), mappings[i]? = some m → m.Sound

section Leases
variable {mappings : List Mapping} {objects : List SharedObject} {i : ℕ} {m m' : Mapping}
  {f : Mapping → Mapping}

theorem getElem?_modify_cases {j : ℕ} {m' : Mapping} (h : (mappings.modify i f)[j]? = some m') :
    (j = i ∧ ∃ m, mappings[i]? = some m ∧ m' = f m) ∨ (j ≠ i ∧ mappings[j]? = some m') := by
  rw [List.getElem?_modify] at h
  cases hm : mappings[j]? with
  | none =>
    rw [hm] at h
    cases h
  | some m =>
    rw [hm] at h
    by_cases hj : i = j
    · subst hj
      refine .inl ⟨rfl, m, hm, ?_⟩
      simpa using h.symm
    · refine .inr ⟨fun hji => hj hji.symm, ?_⟩
      simpa [hj] using h

theorem Leased.modify (h : Leased mappings objects) (hf : Mapping.Keeps f) :
    Leased (mappings.modify i f) objects := by
  refine ⟨?_, ?_, ?_, ?_⟩
  · intro o ho
    rw [List.length_modify]
    exact h.bound o ho
  · intro o ho hfailed m' hm'
    obtain ⟨heq, m, hm, rfl⟩ | ⟨-, hm'⟩ := getElem?_modify_cases hm'
    · rw [← heq] at hm
      exact hf.closed m (h.failed o ho hfailed m hm)
    · exact h.failed o ho hfailed m' hm'
  · intro j m' hm'
    obtain ⟨rfl, m, hm, rfl⟩ | ⟨-, hm'⟩ := getElem?_modify_cases hm'
    · rw [hf.leases, h.count j m hm]
    · exact h.count j m' hm'
  · intro j m' hm'
    obtain ⟨rfl, m, hm, rfl⟩ | ⟨-, hm'⟩ := getElem?_modify_cases hm'
    · exact hf.sound m (h.sound j m hm)
    · exact h.sound j m' hm'

theorem Leased.append (h : Leased mappings objects) :
    Leased (mappings ++ [Mapping.new]) objects := by
  have hcases : ∀ j m, (mappings ++ [Mapping.new])[j]? = some m →
      mappings[j]? = some m ∨ j = mappings.length ∧ m = .new := by
    intro j m hm
    by_cases hj : j < mappings.length
    · rw [List.getElem?_append_left hj] at hm
      exact .inl hm
    · rw [List.getElem?_append_right (Nat.le_of_not_lt hj), List.getElem?_singleton] at hm
      by_cases heq : j - mappings.length = 0
      · rw [if_pos heq] at hm
        cases hm
        exact .inr ⟨by omega, rfl⟩
      · rw [if_neg heq] at hm
        cases hm
  refine ⟨?_, ?_, ?_, ?_⟩
  · intro o ho
    rw [List.length_append]
    exact Nat.lt_add_right _ (h.bound o ho)
  · intro o ho hfailed m hm
    have hlt := h.bound o ho
    obtain hm | ⟨heq, -⟩ := hcases _ m hm
    · exact h.failed o ho hfailed m hm
    · omega
  · intro j m hm
    obtain hm | ⟨rfl, rfl⟩ := hcases j m hm
    · exact h.count j m hm
    · refine (List.countP_eq_zero.mpr ?_).symm
      intro o ho
      have hne := (h.bound o ho).ne
      simp [hne]
  · intro j m hm
    obtain hm | ⟨rfl, rfl⟩ := hcases j m hm
    · exact h.sound j m hm
    · exact Mapping.sound_new

theorem Leased.lease (h : Leased mappings objects) (hm : mappings[i]? = some m)
    (hacquire : m.acquire = .ok m') :
    Leased (mappings.modify i fun _ => m') (objects ++ [⟨i, true, .open⟩]) := by
  obtain ⟨hsound, hleases, -, hopen⟩ := Mapping.Sound.acquire hacquire
  have hlt := (List.getElem?_eq_some_iff.mp hm).1
  refine ⟨?_, ?_, ?_, ?_⟩
  · intro o ho
    rw [List.length_modify]
    obtain ho | ho := List.mem_append.mp ho
    · exact h.bound o ho
    · rw [List.mem_singleton] at ho
      subst ho
      exact hlt
  · intro o ho hfailed k hk
    obtain ho | ho := List.mem_append.mp ho
    · obtain ⟨heq, m₀, hm₀, rfl⟩ | ⟨-, hk⟩ := getElem?_modify_cases hk
      · rw [← heq] at hm
        rw [h.failed o ho hfailed m hm] at hopen
        cases hopen
      · exact h.failed o ho hfailed k hk
    · rw [List.mem_singleton] at ho
      subst ho
      cases hfailed
  · intro j k hk
    unfold leasesOf
    rw [List.countP_append]
    obtain ⟨rfl, m₀, hm₀, rfl⟩ | ⟨hj, hk⟩ := getElem?_modify_cases hk
    · rw [hleases, h.count j m hm]
      simp [leasesOf, SharedObject.active]
    · rw [h.count j k hk]
      simp [leasesOf, Ne.symm hj]
  · intro j k hk
    obtain ⟨rfl, m₀, hm₀, rfl⟩ | ⟨hj, hk⟩ := getElem?_modify_cases hk
    · exact hsound
    · exact h.sound j k hk

theorem Leased.fail (h : Leased mappings objects) (hm : mappings[i]? = some m)
    (hclosed : m.closed = true) : Leased mappings (objects ++ [⟨i, false, .open⟩]) := by
  refine ⟨?_, ?_, ?_, h.sound⟩
  · intro o ho
    obtain ho | ho := List.mem_append.mp ho
    · exact h.bound o ho
    · rw [List.mem_singleton] at ho
      subst ho
      exact (List.getElem?_eq_some_iff.mp hm).1
  · intro o ho hfailed k hk
    obtain ho | ho := List.mem_append.mp ho
    · exact h.failed o ho hfailed k hk
    · rw [List.mem_singleton] at ho
      subst ho
      rw [hm] at hk
      cases hk
      exact hclosed
  · intro j k hk
    unfold leasesOf
    rw [List.countP_append, h.count j k hk]
    simp [leasesOf, SharedObject.active]

/-! ### Closing an object -/

section Objects
variable {o o' : SharedObject}

theorem leasesOf_set (ho : objects[i]? = some o) (j : ℕ) :
    leasesOf (objects.set i o') j + (if o.active && o.state = j then 1 else 0) =
      leasesOf objects j + (if o'.active && o'.state = j then 1 else 0) := by
  obtain ⟨hlt, hget⟩ := List.getElem?_eq_some_iff.mp ho
  have hle := List.boole_getElem_le_countP (p := fun o => o.active && o.state = j) hlt
  unfold leasesOf
  rw [List.countP_set hlt]
  rw [hget] at hle ⊢
  omega

theorem leasesOf_set_same (ho : objects[i]? = some o) (hactive : o'.active = o.active)
    (hstate : o'.state = o.state) (j : ℕ) : leasesOf (objects.set i o') j = leasesOf objects j := by
  have hset : leasesOf (objects.set i o') j + _ = _ := leasesOf_set ho j
  rw [hactive, hstate] at hset
  omega

theorem leasesOf_set_off (ho : objects[i]? = some o) (hactive : o.active = true)
    (hinactive : o'.active = false) (j : ℕ) :
    leasesOf (objects.set i o') j =
      if o.state = j then leasesOf objects j - 1 else leasesOf objects j := by
  have hset : leasesOf (objects.set i o') j + _ = _ := leasesOf_set ho j
  rw [hactive, hinactive] at hset
  by_cases hj : o.state = j
  · simp only [hj, Bool.true_and, decide_true, if_true, Bool.false_and] at hset ⊢
    simp at hset
    omega
  · simp only [hj, Bool.true_and, decide_false, if_false, Bool.false_and] at hset ⊢
    simpa using hset

theorem Leased.close (h : Leased mappings objects) (ho : objects[i]? = some o)
    (hstage : o.stage = .open) :
    Leased mappings (objects.set i { o with stage := .closing }) := by
  have hmem := List.mem_of_getElem? ho
  have hactive : SharedObject.active { o with stage := .closing } = o.active := by
    unfold SharedObject.active
    rw [hstage]
    rfl
  refine ⟨?_, ?_, ?_, h.sound⟩
  · intro x hx
    obtain hx | rfl := List.mem_or_eq_of_mem_set hx
    · exact h.bound x hx
    · exact h.bound o hmem
  · intro x hx hfailed
    obtain hx | rfl := List.mem_or_eq_of_mem_set hx
    · exact h.failed x hx hfailed
    · exact h.failed o hmem hfailed
  · intro j m hm
    rw [leasesOf_set_same ho hactive rfl]
    exact h.count j m hm

/-- A lease is released; an object without one releases nothing. -/
theorem Leased.release (h : Leased mappings objects) (ho : objects[i]? = some o)
    (hstage : o.stage = .closing) :
    Leased (mappings.modify o.state Mapping.release)
      (objects.set i { o with stage := .closed }) := by
  have hmem := List.mem_of_getElem? ho
  have hfailed : ∀ x ∈ objects.set i { o with stage := .closed }, x.acquired = false →
      ∃ y ∈ objects, y.state = x.state ∧ y.acquired = false := by
    intro x hx hfailed
    obtain hx | rfl := List.mem_or_eq_of_mem_set hx
    · exact ⟨x, hx, rfl, hfailed⟩
    · exact ⟨o, hmem, rfl, hfailed⟩
  refine ⟨?_, ?_, ?_, ?_⟩
  · intro x hx
    rw [List.length_modify]
    obtain hx | rfl := List.mem_or_eq_of_mem_set hx
    · exact h.bound x hx
    · exact h.bound o hmem
  · intro x hx hx' k hk
    obtain ⟨y, hy, hstate, hy'⟩ := hfailed x hx hx'
    rw [← hstate] at hk
    obtain ⟨heq, m, hm, rfl⟩ | ⟨-, hk⟩ := getElem?_modify_cases hk
    · rw [← heq] at hm
      exact Mapping.maybeClose_closed (h.failed y hy hy' m hm)
    · exact h.failed y hy hy' k hk
  · intro j k hk
    have hinactive : SharedObject.active { o with stage := .closed } = false := by
      unfold SharedObject.active
      simp
    by_cases hacquired : o.acquired = true
    · have hactive : o.active = true := by
        unfold SharedObject.active
        simp [hacquired, hstage]
      rw [leasesOf_set_off ho hactive hinactive]
      obtain ⟨rfl, m, hm, rfl⟩ | ⟨hj, hk⟩ := getElem?_modify_cases hk
      · rw [if_pos rfl, Mapping.release_leases, h.count _ m hm]
      · rw [if_neg hj.symm]
        exact h.count j k hk
    · have hfailed := Bool.eq_false_iff.mpr hacquired
      have hactive : o.active = false := by
        unfold SharedObject.active
        simp [hfailed]
      rw [leasesOf_set_same ho (hinactive.trans hactive.symm) rfl]
      obtain ⟨rfl, m, hm, rfl⟩ | ⟨-, hk⟩ := getElem?_modify_cases hk
      · have hleases := (h.sound _ m hm).free (h.failed o hmem hfailed m hm)
        rw [Mapping.release_leases, ← h.count _ m hm, hleases]
      · exact h.count j k hk
  · intro j k hk
    obtain ⟨rfl, m, hm, rfl⟩ | ⟨-, hk⟩ := getElem?_modify_cases hk
    · exact (h.sound _ m hm).release
    · exact h.sound j k hk

end Objects
end Leases

end Npb.Mstore.Mappings
