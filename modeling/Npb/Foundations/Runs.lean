import Mathlib.Data.List.Basic

/-! # Runs of a transition relation

`step s e s'` says that the event `e` can take the state `s` to `s'`. A run lists the events from
the first to the last; what one step preserves, every run preserves (`Run.invariant`), also when the
invariant speaks about the events so far (`Run.history`). -/

namespace Npb
set_option autoImplicit false

variable {S E : Type}

/-- `Run step s events s'`: the events lead from `s` to `s'`, one step each. -/
inductive Run (step : S → E → S → Prop) (s : S) : List E → S → Prop
  | nil : Run step s [] s
  | snoc {events : List E} {e : E} {s' s'' : S} :
    Run step s events s' → step s' e s'' → Run step s (events ++ [e]) s''

namespace Run
variable {step : S → E → S → Prop} {s s' s'' : S} {events later : List E}

/-- What every step preserves, also with the events so far. -/
theorem history {I : List E → S → Prop} (h₀ : I [] s)
    (hstep : ∀ events e s' s'', Run step s events s' → I events s' → step s' e s'' →
      I (events ++ [e]) s'') (h : Run step s events s') : I events s' := by
  induction h with
  | nil => exact h₀
  | snoc hrun hlast ih => exact hstep _ _ _ _ hrun ih hlast

theorem invariant {I : S → Prop} (hstep : ∀ e s' s'', I s' → step s' e s'' → I s'')
    (h : Run step s events s') (h₀ : I s) : I s' :=
  h.history (I := fun _ => I) h₀ fun _ e s' s'' _ hI => hstep e s' s'' hI

theorem mono {step' : S → E → S → Prop} (hstep : ∀ s e s', step s e s' → step' s e s')
    (h : Run step s events s') : Run step' s events s' := by
  induction h with
  | nil => exact .nil
  | snoc hrun hlast ih => exact ih.snoc (hstep _ _ _ hlast)

/-- A run of one system is a run of another that its states and events are read as. -/
theorem map {S' E' : Type} {step' : S' → E' → S' → Prop} (f : S → S') (g : E → E')
    (hstep : ∀ s e s', step s e s' → step' (f s) (g e) (f s')) (h : Run step s events s') :
    Run step' (f s) (events.map g) (f s') := by
  induction h with
  | nil => exact .nil
  | snoc hrun hlast ih =>
    rw [List.map_append]
    exact ih.snoc (hstep _ _ _ hlast)

theorem single {e : E} (h : step s e s') : Run step s [e] s' := .snoc .nil h

theorem append (h : Run step s events s') (h' : Run step s' later s'') :
    Run step s (events ++ later) s'' := by
  induction h' with
  | nil => rwa [List.append_nil]
  | snoc hrun hlast ih =>
    rw [← List.append_assoc]
    exact ih.snoc hlast

theorem split (h : Run step s (events ++ later) s'') :
    ∃ s', Run step s events s' ∧ Run step s' later s'' := by
  generalize hall : events ++ later = all at h
  induction h generalizing later with
  | nil =>
    obtain ⟨rfl, rfl⟩ := List.append_eq_nil_iff.mp hall
    exact ⟨s, .nil, .nil⟩
  | snoc hrun hlast ih =>
    obtain rfl | ⟨later', e, rfl⟩ := List.eq_nil_or_concat later
    · rw [List.append_nil] at hall
      subst hall
      exact ⟨_, hrun.snoc hlast, .nil⟩
    · rw [List.concat_eq_append, ← List.append_assoc] at hall
      obtain ⟨hinit, he⟩ := List.append_inj' hall rfl
      cases he
      obtain ⟨s', hfirst, hrest⟩ := ih hinit
      rw [List.concat_eq_append]
      exact ⟨s', hfirst, hrest.snoc hlast⟩

theorem nil_inv (h : Run step s [] s') : s' = s := by
  generalize hnone : ([] : List E) = none at h
  cases h with
  | nil => rfl
  | snoc hrun hlast => exact absurd hnone.symm (by simp)

theorem snoc_inv {e : E} (h : Run step s (events ++ [e]) s'') :
    ∃ s', Run step s events s' ∧ step s' e s'' := by
  generalize hall : events ++ [e] = all at h
  cases h with
  | nil => exact absurd hall (by simp)
  | snoc hrun hlast =>
    obtain ⟨rfl, he⟩ := List.append_inj' hall rfl
    cases he
    exact ⟨_, hrun, hlast⟩

theorem functional (hstep : ∀ e s s' s'', step s e s' → step s e s'' → s' = s'')
    (h : Run step s events s') (h' : Run step s events s'') : s' = s'' := by
  induction h generalizing s'' with
  | nil => exact h'.nil_inv.symm
  | snoc hrun hlast ih =>
    obtain ⟨t, hrun', hlast'⟩ := h'.snoc_inv
    obtain rfl := ih hrun'
    exact hstep _ _ _ _ hlast hlast'

/-- The event at a place of a run, with the states before and after it. -/
theorem split_cons {e : E} (h : Run step s (events ++ e :: later) s'') :
    ∃ s₁ s₂, Run step s events s₁ ∧ step s₁ e s₂ ∧ Run step s₂ later s'' := by
  rw [List.append_cons] at h
  obtain ⟨s₂, hfirst, hrest⟩ := h.split
  obtain ⟨s₁, hfirst, hlast⟩ := hfirst.snoc_inv
  exact ⟨s₁, s₂, hfirst, hlast, hrest⟩

end Run
end Npb
