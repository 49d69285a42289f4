import Mathlib.Data.List.Forall2

/-! # Exceptions over a mutable state

A computation of `EStateM ε S` either returns a value or raises, and keeps the state it had reached
in both cases, as a Python call does. The rules below run a sequence one call at a time: forwards
(`bind_ok`, `bind_error`) and backwards (`bind_eq_ok`, `bind_eq_error`). -/

namespace Npb.Effects
set_option autoImplicit false

variable {ε S α β : Type}

/-- A pure computation that may raise, run in any state. -/
def fromExcept (x : Except ε α) : EStateM ε S α := fun s =>
  match x with
  | .ok a => .ok a s
  | .error e => .error e s

/-- The state in which a computation stopped, by returning or by raising. -/
def finalState : EStateM.Result ε S α → S
  | .ok _ s => s
  | .error _ s => s

@[simp] theorem finalState_ok (a : α) (s : S) :
    finalState (.ok a s : EStateM.Result ε S α) = s := rfl

@[simp] theorem finalState_error (e : ε) (s : S) :
    finalState (.error e s : EStateM.Result ε S α) = s := rfl

/-! ## Running -/

@[simp] theorem pure_run (a : α) (s : S) : (pure a : EStateM ε S α) s = .ok a s := rfl

@[simp] theorem throw_run (e : ε) (s : S) : (throw e : EStateM ε S α) s = .error e s := rfl

@[simp] theorem get_run (s : S) : (get : EStateM ε S S) s = .ok s s := rfl

@[simp] theorem modify_run (f : S → S) (s : S) :
    (modify f : EStateM ε S PUnit) s = .ok ⟨⟩ (f s) := rfl

@[simp] theorem fromExcept_ok (a : α) (s : S) :
    (fromExcept (.ok a) : EStateM ε S α) s = .ok a s := rfl

@[simp] theorem fromExcept_error (e : ε) (s : S) :
    (fromExcept (.error e) : EStateM ε S α) s = .error e s := rfl

theorem bind_run (x : EStateM ε S α) (f : α → EStateM ε S β) (s : S) :
    (x >>= f) s = match x s with
      | .ok a s' => f a s'
      | .error e s' => .error e s' := rfl

theorem bind_ok {x : EStateM ε S α} {s s' : S} {a : α} (h : x s = .ok a s')
    (f : α → EStateM ε S β) : (x >>= f) s = f a s' := by
  rw [bind_run, h]

theorem bind_error {x : EStateM ε S α} {s s' : S} {e : ε} (h : x s = .error e s')
    (f : α → EStateM ε S β) : (x >>= f) s = .error e s' := by
  rw [bind_run, h]

theorem map_run (f : α → β) (x : EStateM ε S α) (s : S) :
    (f <$> x) s = match x s with
      | .ok a s' => .ok (f a) s'
      | .error e s' => .error e s' := rfl

/-! ## Inverting a sequence -/

theorem bind_eq_ok {x : EStateM ε S α} {f : α → EStateM ε S β} {s s'' : S} {b : β} :
    (x >>= f) s = .ok b s'' ↔ ∃ a s', x s = .ok a s' ∧ f a s' = .ok b s'' := by
  constructor
  · intro h
    rw [bind_run] at h
    cases hx : x s with
    | ok a s' => rw [hx] at h; exact ⟨a, s', rfl, h⟩
    | error e s' => rw [hx] at h; cases h
  · rintro ⟨a, s', hx, hf⟩
    rw [bind_ok hx, hf]

theorem bind_eq_error {x : EStateM ε S α} {f : α → EStateM ε S β} {s s'' : S} {e : ε} :
    (x >>= f) s = .error e s'' ↔
      x s = .error e s'' ∨ ∃ a s', x s = .ok a s' ∧ f a s' = .error e s'' := by
  constructor
  · intro h
    rw [bind_run] at h
    cases hx : x s with
    | ok a s' => rw [hx] at h; exact .inr ⟨a, s', rfl, h⟩
    | error e' s' => rw [hx] at h; cases h; exact .inl rfl
  · rintro (hx | ⟨a, s', hx, hf⟩)
    · exact bind_error hx f
    · rw [bind_ok hx, hf]

theorem map_eq_ok {f : α → β} {x : EStateM ε S α} {s s' : S} {b : β} :
    (f <$> x) s = .ok b s' ↔ ∃ a, x s = .ok a s' ∧ f a = b := by
  constructor
  · intro h
    rw [map_run] at h
    cases hx : x s with
    | ok a s'' => rw [hx] at h; cases h; exact ⟨a, rfl, rfl⟩
    | error e s'' => rw [hx] at h; cases h
  · rintro ⟨a, hx, rfl⟩
    rw [map_run, hx]

theorem fromExcept_eq_ok {x : Except ε α} {a : α} {s s' : S} :
    (fromExcept x : EStateM ε S α) s = .ok a s' ↔ x = .ok a ∧ s' = s := by
  cases x with
  | ok b => simp [eq_comm]
  | error e => simp

theorem fromExcept_eq_error {x : Except ε α} {e : ε} {s s' : S} :
    (fromExcept x : EStateM ε S α) s = .error e s' ↔ x = .error e ∧ s' = s := by
  cases x with
  | ok b => simp
  | error e => simp [eq_comm]

@[simp] theorem finalState_fromExcept (x : Except ε α) (s : S) :
    finalState (fromExcept x s : EStateM.Result ε S α) = s := by
  cases x <;> rfl

/-- What both parts of a sequence keep, the sequence keeps, wherever it stops. -/
theorem bind_keeps {R : S → S → Prop} (trans : ∀ s₁ s₂ s₃, R s₁ s₂ → R s₂ s₃ → R s₁ s₃)
    {x : EStateM ε S α} {f : α → EStateM ε S β} {s : S} (hx : R s (finalState (x s)))
    (hf : ∀ a s', x s = .ok a s' → R s' (finalState (f a s'))) :
    R s (finalState ((x >>= f) s)) := by
  rw [bind_run]
  cases h : x s with
  | ok a s' =>
    rw [h] at hx
    exact trans _ _ _ hx (hf a s' h)
  | error e s' =>
    rw [h] at hx
    exact hx

/-! ## Exceptions without a state -/

/-- A sequence of pure computations is one pure computation. -/
theorem fromExcept_bind (x : Except ε α) (f : α → Except ε β) :
    (fromExcept x >>= fun a => fromExcept (f a) : EStateM ε S β) = fromExcept (x >>= f) := by
  funext s
  cases x <;> rfl

theorem fromExcept_bind_eq_ok {x : Except ε α} {f : α → EStateM ε S β} {s s' : S} {b : β} :
    (fromExcept x >>= f) s = .ok b s' ↔ ∃ a, x = .ok a ∧ f a s = .ok b s' := by
  rw [bind_run]
  cases x with
  | ok a => simp
  | error e => simp

theorem fromExcept_bind_eq_error {x : Except ε α} {f : α → EStateM ε S β} {s s' : S} {e : ε} :
    (fromExcept x >>= f) s = .error e s' ↔
      (x = .error e ∧ s' = s) ∨ ∃ a, x = .ok a ∧ f a s = .error e s' := by
  rw [bind_run]
  cases x with
  | ok a => simp
  | error e' => simp [eq_comm]

theorem fromExcept_ok_bind (a : α) (f : α → EStateM ε S β) : (fromExcept (.ok a) >>= f) = f a :=
  rfl

theorem fromExcept_of_ok {x : Except ε α} {a : α} (h : x = .ok a) :
    (fromExcept x : EStateM ε S α) = pure a := by
  rw [h]
  rfl

theorem except_ok_bind (a : α) (f : α → Except ε β) : (Except.ok a >>= f) = f a := rfl

theorem except_bind_eq_ok {x : Except ε α} {f : α → Except ε β} {b : β} :
    (x >>= f) = .ok b ↔ ∃ a, x = .ok a ∧ f a = .ok b := by
  cases x <;> simp [bind, Except.bind]

theorem except_bind_eq_error {x : Except ε α} {f : α → Except ε β} {e : ε} :
    (x >>= f) = .error e ↔ x = .error e ∨ ∃ a, x = .ok a ∧ f a = .error e := by
  cases x <;> simp [bind, Except.bind]

/-- `if c: raise e`. -/
def raiseIf (c : Prop) [Decidable c] (e : ε) : Except ε Unit := if c then .error e else .ok ()

section RaiseIf
variable {c : Prop} [Decidable c] {e e' : ε} {f : Unit → Except ε β} {b : β}

theorem raiseIf_eq_ok : raiseIf c e = .ok () ↔ ¬ c := by
  unfold raiseIf
  split <;> simp_all

theorem raiseIf_eq_error : raiseIf c e = .error e' ↔ c ∧ e = e' := by
  unfold raiseIf
  split <;> simp_all

theorem raiseIf_bind (h : ¬ c) : (raiseIf c e >>= f) = f () := by
  rw [raiseIf_eq_ok.mpr h]
  rfl

theorem raiseIf_bind_of (h : c) : (raiseIf c e >>= f) = .error e := by
  rw [raiseIf, if_pos h]
  rfl

theorem raiseIf_bind_eq_ok : (raiseIf c e >>= f) = .ok b ↔ ¬ c ∧ f () = .ok b := by
  by_cases h : c
  · rw [raiseIf, if_pos h]
    simp [bind, Except.bind, h]
  · rw [raiseIf_bind h]
    simp [h]

theorem raiseIf_bind_eq_error :
    (raiseIf c e >>= f) = .error e' ↔ (c ∧ e = e') ∨ (¬ c ∧ f () = .error e') := by
  by_cases h : c
  · rw [raiseIf, if_pos h]
    simp [bind, Except.bind, h]
  · rw [raiseIf_bind h]
    simp [h]

theorem fromExcept_raiseIf {S : Type} (h : ¬ c) :
    (fromExcept (raiseIf c e) : EStateM ε S Unit) = pure () :=
  fromExcept_of_ok (raiseIf_eq_ok.mpr h)

theorem raiseIf_run_eq_ok {S : Type} {f : Unit → EStateM ε S β} {s s' : S} :
    (fromExcept (raiseIf c e) >>= f) s = .ok b s' ↔ ¬ c ∧ f () s = .ok b s' := by
  rw [fromExcept_bind_eq_ok, ← raiseIf_eq_ok (e := e)]
  constructor
  · intro h
    obtain ⟨⟨⟩, h⟩ := h
    exact h
  · exact fun h => ⟨(), h⟩

theorem raiseIf_run_eq_error {S : Type} {f : Unit → EStateM ε S β} {s s' : S} :
    (fromExcept (raiseIf c e) >>= f) s = .error e' s' ↔
      (c ∧ e = e' ∧ s' = s) ∨ (¬ c ∧ f () s = .error e' s') := by
  rw [fromExcept_bind_eq_error, raiseIf_eq_error, ← raiseIf_eq_ok (e := e), and_assoc]
  constructor
  · intro h
    obtain h | ⟨⟨⟩, h⟩ := h
    · exact .inl h
    · exact .inr h
  · intro h
    obtain h | h := h
    · exact .inl h
    · exact .inr ⟨(), h⟩

end RaiseIf

/-! ## Loops over a list -/

theorem forall₂_mem_left {R : α → β → Prop} {xs : List α} {ys : List β}
    (h : List.Forall₂ R xs ys) {x : α} (hx : x ∈ xs) : ∃ y ∈ ys, R x y := by
  induction h with
  | nil => cases hx
  | cons hr _ ih =>
    obtain rfl | hx := List.mem_cons.mp hx
    · exact ⟨_, List.mem_cons_self .., hr⟩
    · obtain ⟨y, hy, hr⟩ := ih hx
      exact ⟨y, List.mem_cons_of_mem _ hy, hr⟩

theorem mapM_congr {m : Type → Type} [Monad m] [LawfulMonad m] {f g : α → m β} (xs : List α)
    (h : ∀ x ∈ xs, f x = g x) : xs.mapM f = xs.mapM g := by
  induction xs with
  | nil => rw [List.mapM_nil, List.mapM_nil]
  | cons x xs ih =>
    rw [List.mapM_cons, List.mapM_cons, h x (List.mem_cons_self ..),
      ih fun y hy => h y (List.mem_cons_of_mem x hy)]

theorem mapM_fromExcept (f : α → Except ε β) (xs : List α) :
    xs.mapM (fun x => (fromExcept (f x) : EStateM ε S β)) = fromExcept (xs.mapM f) := by
  induction xs with
  | nil => rfl
  | cons x xs ih =>
    rw [List.mapM_cons, List.mapM_cons, ih, ← fromExcept_bind]
    congr 1
    funext y
    rw [← fromExcept_bind]
    rfl

/-- A relation every iteration keeps holds from the start of the loop to where it stopped. -/
theorem mapM_keeps {R : S → S → Prop} (refl : ∀ s, R s s)
    (trans : ∀ s₁ s₂ s₃, R s₁ s₂ → R s₂ s₃ → R s₁ s₃) {f : α → EStateM ε S β} (xs : List α)
    (step : ∀ x ∈ xs, ∀ s, R s (finalState (f x s))) (s : S) :
    R s (finalState (xs.mapM f s)) := by
  induction xs generalizing s with
  | nil => simpa using refl s
  | cons x xs ih =>
    have hx := step x (List.mem_cons_self ..) s
    rw [List.mapM_cons]
    cases hr : f x s with
    | error e s' =>
      rw [bind_error hr]
      simpa [hr] using hx
    | ok y s' =>
      have hxs := ih (fun z hz => step z (List.mem_cons_of_mem x hz)) s'
      rw [bind_ok hr]
      rw [hr, finalState_ok] at hx
      cases ht : xs.mapM f s' with
      | error e s'' =>
        rw [bind_error ht]
        rw [ht] at hxs
        exact trans _ _ _ hx hxs
      | ok ys s'' =>
        rw [bind_ok ht]
        rw [ht] at hxs
        exact trans _ _ _ hx hxs

theorem mapM_pure {f : α → EStateM ε S β} {g : α → β} {s : S} (xs : List α)
    (step : ∀ x ∈ xs, f x s = .ok (g x) s) : xs.mapM f s = .ok (xs.map g) s := by
  induction xs with
  | nil => simp
  | cons x xs ih =>
    rw [List.mapM_cons, bind_ok (step x (List.mem_cons_self ..)),
      bind_ok (ih fun z hz => step z (List.mem_cons_of_mem x hz))]
    rfl

/-- Every iteration of a loop that returns has returned one of the results. -/
theorem mapM_each {f : α → EStateM ε S β} {xs : List α} {s s' : S} {ys : List β}
    (hrun : xs.mapM f s = .ok ys s') {x : α} (hx : x ∈ xs) :
    ∃ s₁ y s₂, f x s₁ = .ok y s₂ ∧ y ∈ ys := by
  induction xs generalizing s ys with
  | nil => cases hx
  | cons x' xs ih =>
    rw [List.mapM_cons, bind_eq_ok] at hrun
    obtain ⟨y, s₁, hy, hrun⟩ := hrun
    obtain ⟨zs, s₂, hzs, hrun⟩ := bind_eq_ok.mp hrun
    cases hrun
    obtain rfl | hx := List.mem_cons.mp hx
    · exact ⟨s, y, s₁, hy, List.mem_cons_self ..⟩
    · obtain ⟨s₃, z, s₄, hz, hmem⟩ := ih hzs hx
      exact ⟨s₃, z, s₄, hz, List.mem_cons_of_mem _ hmem⟩

/-- A loop run from a related state returns the same results, when its iterations do. -/
theorem mapM_simulate {S' : Type} {R : S → S' → Prop} {f : α → EStateM ε S β}
    {g : α → EStateM ε S' β} (xs : List α)
    (step : ∀ x ∈ xs, ∀ s y s₁ s', R s s' → f x s = .ok y s₁ →
      ∃ s₁', g x s' = .ok y s₁' ∧ R s₁ s₁')
    {s s₁ : S} {s' : S'} {ys : List β} (hrel : R s s') (hrun : xs.mapM f s = .ok ys s₁) :
    ∃ s₁', xs.mapM g s' = .ok ys s₁' ∧ R s₁ s₁' := by
  induction xs generalizing s s' ys with
  | nil =>
    cases hrun
    exact ⟨s', rfl, hrel⟩
  | cons x xs ih =>
    rw [List.mapM_cons, bind_eq_ok] at hrun
    obtain ⟨y, s₂, hx, hrun⟩ := hrun
    obtain ⟨zs, s₃, hxs, hrun⟩ := bind_eq_ok.mp hrun
    cases hrun
    obtain ⟨s₂', hx', hrel₂⟩ := step x (List.mem_cons_self ..) s y s₂ s' hrel hx
    obtain ⟨s₃', hxs', hrel₃⟩ := ih (fun z hz => step z (List.mem_cons_of_mem x hz)) hrel₂ hxs
    refine ⟨s₃', ?_, hrel₃⟩
    rw [List.mapM_cons, bind_ok hx', bind_ok hxs']
    rfl

/-- What holds of each result when it is produced, and survives the later iterations, holds of all
the results of a loop that returns. -/
theorem mapM_post {I : S → Prop} {Q : S → β → Prop} {f : α → EStateM ε S β} (xs : List α)
    (step : ∀ x ∈ xs, ∀ s y s', I s → f x s = .ok y s' →
      I s' ∧ Q s' y ∧ ∀ z, Q s z → Q s' z) {s s' : S} {ys : List β}
    (hI : I s) (hrun : xs.mapM f s = .ok ys s') :
    I s' ∧ (∀ y ∈ ys, Q s' y) ∧ ∀ z, Q s z → Q s' z := by
  induction xs generalizing s ys with
  | nil =>
    rw [List.mapM_nil, pure_run] at hrun
    cases hrun
    exact ⟨hI, by simp, fun _ h => h⟩
  | cons x xs ih =>
    rw [List.mapM_cons, bind_eq_ok] at hrun
    obtain ⟨y, s₁, hx, hrun⟩ := hrun
    obtain ⟨zs, s₂, hxs, hrun⟩ := bind_eq_ok.mp hrun
    cases hrun
    obtain ⟨hI₁, hy, hkeep⟩ := step x (List.mem_cons_self ..) s y s₁ hI hx
    obtain ⟨hI₂, hzs, hkeep'⟩ :=
      ih (fun z hz => step z (List.mem_cons_of_mem x hz)) hI₁ hxs
    refine ⟨hI₂, ?_, fun z hz => hkeep' z (hkeep z hz)⟩
    intro z hz
    obtain rfl | hz := List.mem_cons.mp hz
    · exact hkeep' z hy
    · exact hzs z hz

/-- What each iteration makes of its element and does to the state, concatenated over a loop that
returns. -/
theorem mapM_trace {γ δ : Type} {T : List γ → List δ → S → S → Prop} {g : α → List γ}
    {h : β → List δ} (nil : ∀ s, T [] [] s s)
    (append : ∀ us vs us' vs' s₁ s₂ s₃, T us us' s₁ s₂ → T vs vs' s₂ s₃ →
      T (us ++ vs) (us' ++ vs') s₁ s₃)
    {f : α → EStateM ε S β} (xs : List α)
    (step : ∀ x ∈ xs, ∀ s y s', f x s = .ok y s' → T (g x) (h y) s s') {s s' : S} {ys : List β}
    (hrun : xs.mapM f s = .ok ys s') : T (xs.flatMap g) (ys.flatMap h) s s' := by
  induction xs generalizing s ys with
  | nil =>
    cases hrun
    exact nil _
  | cons x xs ih =>
    rw [List.mapM_cons, bind_eq_ok] at hrun
    obtain ⟨y, s₁, hx, hrun⟩ := hrun
    obtain ⟨zs, s₂, hxs, hrun⟩ := bind_eq_ok.mp hrun
    cases hrun
    rw [List.flatMap_cons, List.flatMap_cons]
    have hhead := step x (List.mem_cons_self ..) s y s₁ hx
    exact append _ _ _ _ s s₁ s' hhead
      (ih (fun z hz => step z (List.mem_cons_of_mem x hz)) hxs)

/-- A loop whose iterations all return from states satisfying `I`, each with a result standing in a
relation `P` that the later iterations keep. -/
theorem mapM_total {γ : Type} {I : S → Prop} {P : S → β → γ → Prop} {g : α → γ}
    {f : α → EStateM ε S β} (xs : List α)
    (step : ∀ x ∈ xs, ∀ s, I s → ∃ y s', f x s = .ok y s' ∧ I s' ∧ P s' y (g x) ∧
      ∀ z c, P s z c → P s' z c) {s : S} (hI : I s) :
    ∃ ys s', xs.mapM f s = .ok ys s' ∧ I s' ∧ List.Forall₂ (P s') ys (xs.map g) ∧
      ∀ z c, P s z c → P s' z c := by
  induction xs generalizing s with
  | nil => exact ⟨[], s, rfl, hI, .nil, fun _ _ h => h⟩
  | cons x xs ih =>
    obtain ⟨y, s₁, hx, hI₁, hy, hkeep⟩ := step x (List.mem_cons_self ..) s hI
    obtain ⟨ys, s₂, hxs, hI₂, hys, hkeep'⟩ :=
      ih (fun z hz => step z (List.mem_cons_of_mem x hz)) hI₁
    refine ⟨y :: ys, s₂, ?_, hI₂, .cons (hkeep' _ _ hy) hys,
      fun z c hz => hkeep' z c (hkeep z c hz)⟩
    rw [List.mapM_cons, bind_ok hx, bind_ok hxs]
    rfl

/-! ## Computations without their results -/

theorem discard_eq {m : Type → Type} [Monad m] [LawfulMonad m] (x : m α) :
    discard x = (fun _ => ⟨⟩) <$> x := by
  rw [Functor.discard, LawfulFunctor.map_const]
  rfl

theorem finalState_discard (x : EStateM ε S α) (s : S) :
    finalState (discard x s) = finalState (x s) := by
  rw [discard_eq, map_run]
  cases x s <;> rfl

theorem discard_bind {m : Type → Type} [Monad m] [LawfulMonad m] (x : m α) (f : α → m β) :
    discard (x >>= f) = x >>= fun a => discard (f a) := by
  simp only [discard_eq]
  rw [map_bind]

theorem bind_discard {m : Type → Type} [Monad m] [LawfulMonad m] (x : m α) (y : m β) :
    (discard x >>= fun _ => y) = x >>= fun _ => y := by
  simp only [discard_eq]
  rw [bind_map_left]

theorem discard_pure {m : Type → Type} [Monad m] [LawfulMonad m] (x : m α) (f : α → β) :
    discard (x >>= fun a => pure (f a)) = discard x := by
  rw [discard_bind, discard_eq x, map_eq_pure_bind]
  congr 1
  funext a
  rw [discard_eq, map_pure]

/-- A loop over a list and the loops over the lists its elements stand for do the same. -/
theorem discard_mapM_flatMap {m : Type → Type} [Monad m] [LawfulMonad m] {γ δ : Type}
    {f : α → m β} {g : α → List γ} {h : γ → m δ} (xs : List α)
    (step : ∀ x ∈ xs, discard (f x) = discard ((g x).mapM h)) :
    discard (xs.mapM f) = discard ((xs.flatMap g).mapM h) := by
  induction xs with
  | nil =>
    rw [List.mapM_nil, List.flatMap_nil, List.mapM_nil]
    simp only [discard_eq, map_pure]
  | cons x xs ih =>
    have hrest := ih fun y hy => step y (List.mem_cons_of_mem x hy)
    have hhead : discard ((x :: xs).mapM f) = discard (f x) >>= fun _ => discard (xs.mapM f) := by
      rw [List.mapM_cons, discard_bind, bind_discard]
      congr 1
      funext y
      rw [discard_pure]
    have htail : discard (((x :: xs).flatMap g).mapM h) =
        discard ((g x).mapM h) >>= fun _ => discard ((xs.flatMap g).mapM h) := by
      rw [List.flatMap_cons, List.mapM_append, discard_bind, bind_discard]
      congr 1
      funext y
      rw [discard_pure]
    rw [hhead, htail, hrest, step x (List.mem_cons_self ..)]

theorem finalState_mapM_ok {f : α → EStateM ε S β} {x : α} {xs : List α} {s s' : S} {y : β}
    (h : f x s = .ok y s') : finalState ((x :: xs).mapM f s) = finalState (xs.mapM f s') := by
  rw [List.mapM_cons, bind_ok h, bind_run]
  cases xs.mapM f s' <;> rfl

theorem finalState_mapM_error {f : α → EStateM ε S β} {x : α} {xs : List α} {s s' : S} {e : ε}
    (h : f x s = .error e s') : finalState ((x :: xs).mapM f s) = s' := by
  rw [List.mapM_cons, bind_error h, finalState_error]

end Npb.Effects
