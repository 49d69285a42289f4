import Mathlib.Data.List.Nodup

/-! # Ordered dictionaries

Items in insertion order, one for each key. Assigning to a key that is there keeps its place. Every
operation is described by the items it leaves, and lookups are read off the items
(`get?_eq_some`). -/

namespace Npb
set_option autoImplicit false

structure Dict (κ α : Type) where
  items : List (κ × α)
  nodup : (items.map Prod.fst).Nodup

namespace Dict
variable {κ α : Type} {d : Dict κ α} {k k' : κ} {v v' : α}

def empty : Dict κ α := ⟨[], List.nodup_nil⟩

def keys (d : Dict κ α) : List κ := d.items.map Prod.fst

def values (d : Dict κ α) : List α := d.items.map Prod.snd

def size (d : Dict κ α) : ℕ := d.items.length

/-- Keep the items that satisfy `p`. -/
def filter (d : Dict κ α) (p : κ × α → Bool) : Dict κ α :=
  ⟨d.items.filter p, d.nodup.sublist (List.filter_sublist.map Prod.fst)⟩

@[simp] theorem items_empty : (empty : Dict κ α).items = [] := rfl

@[simp] theorem mem_filter {p : κ × α → Bool} {e : κ × α} :
    e ∈ (d.filter p).items ↔ e ∈ d.items ∧ p e = true := List.mem_filter

theorem mem_keys : k ∈ d.keys ↔ ∃ v, (k, v) ∈ d.items := by
  unfold keys
  rw [List.mem_map]
  constructor
  · intro h
    obtain ⟨e, he, rfl⟩ := h
    exact ⟨e.2, he⟩
  · intro h
    obtain ⟨v, hv⟩ := h
    exact ⟨(k, v), hv, rfl⟩

theorem mem_values : v ∈ d.values ↔ ∃ k, (k, v) ∈ d.items := by
  unfold values
  rw [List.mem_map]
  constructor
  · intro h
    obtain ⟨e, he, rfl⟩ := h
    exact ⟨e.1, he⟩
  · intro h
    obtain ⟨k, hk⟩ := h
    exact ⟨(k, v), hk, rfl⟩

theorem value_unique (h : (k, v) ∈ d.items) (h' : (k, v') ∈ d.items) : v = v' :=
  (Prod.mk.inj (List.inj_on_of_nodup_map d.nodup h h' rfl)).2

/-- Values that differ from key to key are listed once each. -/
theorem nodup_map_values {β : Type} (f : α → β)
    (h : ∀ k v k' v', (k, v) ∈ d.items → (k', v') ∈ d.items → f v = f v' → k = k') :
    (d.values.map f).Nodup := by
  unfold values
  rw [List.map_map]
  refine List.Nodup.map_on ?_ (List.Nodup.of_map Prod.fst d.nodup)
  intro e he e' he' hf
  have hk := h e.1 e.2 e'.1 e'.2 he he' hf
  exact List.inj_on_of_nodup_map d.nodup he he' hk

theorem size_filter_le (p : κ × α → Bool) : (d.filter p).size ≤ d.size := List.length_filter_le ..

variable [DecidableEq κ]

/-- `d.get(k)`. -/
def get? (d : Dict κ α) (k : κ) : Option α := d.items.lookup k

/-- `d[k] = v`. -/
def set (d : Dict κ α) (k : κ) (v : α) : Dict κ α :=
  if h : k ∈ d.keys then
    ⟨d.items.map fun e => if e.1 = k then (k, v) else e, by
      have hkeys : (d.items.map fun e => if e.1 = k then (k, v) else e).map Prod.fst =
          d.items.map Prod.fst := by
        rw [List.map_map]
        refine List.map_congr_left fun e _ => ?_
        by_cases he : e.1 = k
        · simp [he]
        · simp [he]
      rw [hkeys]
      exact d.nodup⟩
  else
    ⟨d.items ++ [(k, v)], by
      rw [List.map_append, List.nodup_append]
      refine ⟨d.nodup, List.nodup_singleton _, ?_⟩
      intro a ha b hb hab
      rw [List.map_singleton, List.mem_singleton] at hb
      subst hb
      subst hab
      exact h ha⟩

/-- `d.pop(k, None)`. -/
def pop (d : Dict κ α) (k : κ) : Dict κ α := d.filter fun e => e.1 ≠ k

/-- `d.move_to_end(k)`, where `v` is the value of `k`. -/
def moveToEnd (d : Dict κ α) (k : κ) (v : α) : Dict κ α := (d.pop k).set k v

theorem mem_set {e : κ × α} :
    e ∈ (d.set k v).items ↔ e = (k, v) ∨ (e ∈ d.items ∧ e.1 ≠ k) := by
  unfold set
  by_cases h : k ∈ d.keys
  · rw [dif_pos h, List.mem_map]
    constructor
    · intro he
      obtain ⟨e', he', rfl⟩ := he
      by_cases hk : e'.1 = k
      · simp [hk]
      · simp [hk, he']
    · intro he
      obtain rfl | ⟨he, hne⟩ := he
      · obtain ⟨u, hu⟩ := mem_keys.mp h
        exact ⟨(k, u), hu, by simp⟩
      · exact ⟨e, he, by simp [hne]⟩
  · rw [dif_neg h, List.mem_append, List.mem_singleton]
    constructor
    · intro he
      obtain he | rfl := he
      · refine .inr ⟨he, ?_⟩
        intro hk
        exact h (mem_keys.mpr ⟨e.2, by rwa [← hk]⟩)
      · exact .inl rfl
    · intro he
      obtain rfl | ⟨he, -⟩ := he
      · exact .inr rfl
      · exact .inl he

theorem mem_pop {e : κ × α} : e ∈ (d.pop k).items ↔ e ∈ d.items ∧ e.1 ≠ k := by
  simp [pop]

theorem get?_eq_some : d.get? k = some v ↔ (k, v) ∈ d.items := by
  unfold get?
  rw [List.lookup_eq_some_iff]
  constructor
  · intro h
    obtain ⟨before, after, hitems, -⟩ := h
    rw [hitems]
    exact List.mem_append_right _ (List.mem_cons_self ..)
  · intro h
    obtain ⟨before, after, hitems⟩ := List.append_of_mem h
    refine ⟨before, after, hitems, ?_⟩
    intro e he
    have hnodup := d.nodup
    rw [hitems, List.map_append, List.nodup_append] at hnodup
    have hne := hnodup.2.2 e.1 (List.mem_map_of_mem he) k (by simp)
    simpa using Ne.symm hne

theorem get?_eq_none : d.get? k = none ↔ ∀ v, (k, v) ∉ d.items := by
  constructor
  · intro h v hv
    rw [get?_eq_some.mpr hv] at h
    cases h
  · intro h
    cases hget : d.get? k with
    | none => rfl
    | some v => exact absurd (get?_eq_some.mp hget) (h v)

theorem get?_congr {d' : Dict κ α} (h : ∀ v, (k, v) ∈ d.items ↔ (k', v) ∈ d'.items) :
    d.get? k = d'.get? k' := by
  refine Option.ext fun v => ?_
  rw [get?_eq_some, get?_eq_some, h v]

@[simp] theorem get?_empty : (empty : Dict κ α).get? k = none := rfl

@[simp] theorem get?_set_self : (d.set k v).get? k = some v :=
  get?_eq_some.mpr (mem_set.mpr (.inl rfl))

theorem get?_set_of_ne (h : k' ≠ k) : (d.set k v).get? k' = d.get? k' := by
  refine get?_congr fun u => ?_
  rw [mem_set]
  simp [h]

theorem get?_set : (d.set k v).get? k' = if k' = k then some v else d.get? k' := by
  by_cases h : k' = k
  · rw [if_pos h, h, get?_set_self]
  · rw [if_neg h, get?_set_of_ne h]

@[simp] theorem get?_pop_self : (d.pop k).get? k = none := by
  rw [get?_eq_none]
  intro v hv
  exact (mem_pop.mp hv).2 rfl

theorem get?_pop_of_ne (h : k' ≠ k) : (d.pop k).get? k' = d.get? k' := by
  refine get?_congr fun u => ?_
  rw [mem_pop]
  simp [h]

theorem get?_filter {p : κ × α → Bool} :
    (d.filter p).get? k = (d.get? k).filter fun v => p (k, v) := by
  refine Option.ext fun v => ?_
  rw [get?_eq_some, mem_filter, Option.filter_eq_some_iff, get?_eq_some]

/-! ### Items in order -/

theorem items_set_new (h : d.get? k = none) : (d.set k v).items = d.items ++ [(k, v)] := by
  unfold set
  rw [dif_neg]
  intro hk
  obtain ⟨u, hu⟩ := mem_keys.mp hk
  exact get?_eq_none.mp h u hu

theorem items_pop_head {rest : List (κ × α)} (h : d.items = (k, v) :: rest) :
    (d.pop k).items = rest := by
  have hnodup := d.nodup
  rw [h, List.map_cons, List.nodup_cons] at hnodup
  show d.items.filter _ = rest
  rw [h, List.filter_cons_of_neg (by simp), List.filter_eq_self]
  intro e he
  have hne : e.1 ≠ k := fun heq => hnodup.1 (List.mem_map.mpr ⟨e, he, heq⟩)
  exact decide_eq_true hne

theorem items_pop_new (h : d.get? k = none) : (d.pop k).items = d.items := by
  refine List.filter_eq_self.mpr fun e he => ?_
  apply decide_eq_true
  rintro rfl
  exact get?_eq_none.mp h e.2 he

theorem items_moveToEnd : (d.moveToEnd k v).items = (d.pop k).items ++ [(k, v)] :=
  items_set_new get?_pop_self

/-! ### Sizes -/

theorem size_pop_le : (d.pop k).size ≤ d.size := size_filter_le _

theorem size_moveToEnd_le (h : d.get? k = some v) : (d.moveToEnd k v).size ≤ d.size := by
  have hless : (d.pop k).size < d.size := by
    unfold size pop filter
    rw [List.length_filter_lt_length_iff_exists]
    exact ⟨(k, v), get?_eq_some.mp h, by simp⟩
  unfold size at hless ⊢
  rw [items_moveToEnd, List.length_append]
  exact hless

theorem get?_moveToEnd (h : d.get? k = some v) : (d.moveToEnd k v).get? k' = d.get? k' := by
  unfold moveToEnd
  by_cases hk : k' = k
  · rw [hk, get?_set_self, h]
  · rw [get?_set_of_ne hk, get?_pop_of_ne hk]

end Dict
end Npb
