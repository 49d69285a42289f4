import Npb.Foundations.Effects

/-! # Checks in sequence

A validator asks one thing after the other and raises at the first that fails. A `Check` says when
one of these passes, and when its failure is of a kind that matters; `Describes` ties a list of
checks to the computation that makes them, and the rules follow the computation's structure. -/

namespace Npb.Effects
set_option autoImplicit false

variable {ε α β : Type}

structure Check where
  passes : Prop
  /-- It fails, and not with an exception of the reported kind. -/
  escapes : Prop

/-- A check that fails, and is reported. -/
def Check.rejected : Check := ⟨False, False⟩

/-- The first check that does not pass escapes. -/
def Escapes : List Check → Prop
  | [] => False
  | c :: cs => c.escapes ∨ (c.passes ∧ Escapes cs)

theorem escapes_append (cs ds : List Check) :
    Escapes (cs ++ ds) ↔ Escapes cs ∨ ((∀ c ∈ cs, c.passes) ∧ Escapes ds) := by
  induction cs with
  | nil => simp [Escapes]
  | cons c cs ih =>
    rw [List.cons_append, Escapes, Escapes, ih, List.forall_mem_cons, and_or_left, or_assoc,
      and_assoc]

/-- The checks are those the computation makes, `reported` being the expected exceptions. -/
structure Describes (reported : ε → Prop) (cs : List Check) (x : Except ε α) : Prop where
  returns : (∃ a, x = .ok a) ↔ ∀ c ∈ cs, c.passes
  raises : (∃ e, x = .error e ∧ ¬ reported e) ↔ Escapes cs

namespace Describes
variable {reported : ε → Prop} {cs ds : List Check} {x : Except ε α} {f : α → Except ε β}

theorem ok (a : α) : Describes reported [] (.ok a) :=
  ⟨by simp, by simp [Escapes]⟩

theorem error {e : ε} (h : reported e) :
    Describes reported [Check.rejected] (.error e : Except ε α) :=
  ⟨by simp [Check.rejected], by simp [Escapes, Check.rejected, h]⟩

theorem bind (hx : Describes reported cs x)
    (hf : ∀ a, x = .ok a → Describes reported ds (f a)) :
    Describes reported (cs ++ ds) (x >>= f) := by
  cases x with
  | ok a =>
    have hcs := hx.returns.mp ⟨a, rfl⟩
    have hnone : ¬ Escapes cs := by
      rw [← hx.raises]
      rintro ⟨e, he, -⟩
      cases he
    have hfa := hf a rfl
    constructor
    · rw [List.forall_mem_append, ← hfa.returns]
      exact (and_iff_right hcs).symm
    · rw [escapes_append, ← hfa.raises, or_iff_right hnone]
      exact (and_iff_right hcs).symm
  | error e =>
    have hcs : ¬ ∀ c ∈ cs, c.passes := by
      rw [← hx.returns]
      rintro ⟨a, ha⟩
      cases ha
    have hbind : ((.error e : Except ε α) >>= f) = .error e := rfl
    rw [hbind]
    constructor
    · rw [List.forall_mem_append]
      constructor
      · rintro ⟨b, hb⟩
        cases hb
      · intro h
        exact absurd h.1 hcs
    · rw [escapes_append, or_iff_left fun h => hcs h.1, ← hx.raises]
      simp only [Except.error.injEq]

/-- A computation that goes on without failing makes no further checks. -/
theorem map (hx : Describes reported cs x) (g : α → β) :
    Describes reported cs (x >>= fun a => pure (g a)) := by
  have h := hx.bind (f := fun a => pure (g a)) fun a _ => ok (g a)
  rwa [List.append_nil] at h

theorem mapM {g : α → Except ε β} {checks : α → List Check} (xs : List α)
    (h : ∀ a ∈ xs, Describes reported (checks a) (g a)) :
    Describes reported (xs.flatMap checks) (xs.mapM g) := by
  induction xs with
  | nil => exact ok []
  | cons a xs ih =>
    rw [List.mapM_cons, List.flatMap_cons]
    refine (h a (List.mem_cons_self ..)).bind fun b _ => ?_
    exact (ih fun a ha => h a (List.mem_cons_of_mem _ ha)).map fun bs => b :: bs

theorem raiseIf_bind {c : Prop} [Decidable c] {e : ε} {f : Unit → Except ε β} (h : reported e)
    (hf : Describes reported ds (f ())) :
    Describes reported (⟨¬ c, False⟩ :: ds) (raiseIf c e >>= f) := by
  have hcheck : Describes reported [⟨¬ c, False⟩] (raiseIf c e) := by
    by_cases hc : c
    · rw [raiseIf, if_pos hc]
      constructor <;> simp [Escapes, hc, h]
    · rw [raiseIf, if_neg hc]
      constructor <;> simp [Escapes, hc]
  exact hcheck.bind fun _ _ => hf

end Describes
end Npb.Effects
