import Mathlib.Logic.Basic

/-! # Custody of resources

Whoever holds a resource has to close it. A custody is sound when nobody holds a closed resource and
every open one has exactly one holder; making a resource, passing it on and closing it keep that. -/

namespace Npb
set_option autoImplicit false

variable {O O' R : Type}

/-- Each open resource has one holder, and no other resource has any. -/
structure Custody (holds : O → R → Prop) (isOpen : R → Prop) : Prop where
  live : ∀ a r, holds a r → isOpen r
  held : ∀ r, isOpen r → ∃ a, holds a r
  exclusive : ∀ a b r, holds a r → holds b r → a = b

namespace Custody
variable {holds : O → R → Prop} {isOpen : R → Prop}

theorem congr (h : Custody holds isOpen) {holds' : O → R → Prop} {isOpen' : R → Prop}
    (hholds : ∀ a r, holds' a r ↔ holds a r) (hopen : ∀ r, isOpen' r ↔ isOpen r) :
    Custody holds' isOpen' where
  live a r ha := (hopen r).mpr (h.live a r ((hholds a r).mp ha))
  held r hr := by
    obtain ⟨a, ha⟩ := h.held r ((hopen r).mp hr)
    exact ⟨a, (hholds a r).mpr ha⟩
  exclusive a b r ha hb := h.exclusive a b r ((hholds a r).mp ha) ((hholds b r).mp hb)

/-- A holder gets one resource, which is new or was in the hands of another. -/
theorem give (h : Custody holds isOpen) {holds' : O → R → Prop} {isOpen' : R → Prop} {b : O} {r : R}
    (hself : ∀ a, holds' a r ↔ a = b) (hrest : ∀ a q, q ≠ r → (holds' a q ↔ holds a q))
    (hopen : ∀ q, isOpen' q ↔ q = r ∨ isOpen q) : Custody holds' isOpen' where
  live a q ha := by
    by_cases hq : q = r
    · exact (hopen q).mpr (.inl hq)
    · exact (hopen q).mpr (.inr (h.live a q ((hrest a q hq).mp ha)))
  held q hq := by
    by_cases hqr : q = r
    · exact ⟨b, by rw [hqr]; exact (hself b).mpr rfl⟩
    · obtain ⟨a, ha⟩ := h.held q (((hopen q).mp hq).resolve_left hqr)
      exact ⟨a, (hrest a q hqr).mpr ha⟩
  exclusive a c q ha hc := by
    by_cases hq : q = r
    · subst hq
      exact ((hself a).mp ha).trans ((hself c).mp hc).symm
    · exact h.exclusive a c q ((hrest a q hq).mp ha) ((hrest c q hq).mp hc)

theorem release (h : Custody holds isOpen) {holds' : O → R → Prop} {isOpen' : R → Prop} {r : R}
    (hholds : ∀ a q, holds' a q ↔ holds a q ∧ q ≠ r)
    (hopen : ∀ q, isOpen' q ↔ isOpen q ∧ q ≠ r) : Custody holds' isOpen' where
  live a q ha := by
    obtain ⟨ha, hq⟩ := (hholds a q).mp ha
    exact (hopen q).mpr ⟨h.live a q ha, hq⟩
  held q hq := by
    obtain ⟨hq, hne⟩ := (hopen q).mp hq
    obtain ⟨a, ha⟩ := h.held q hq
    exact ⟨a, (hholds a q).mpr ⟨ha, hne⟩⟩
  exclusive a b q ha hb := h.exclusive a b q ((hholds a q).mp ha).1 ((hholds b q).mp hb).1

theorem map (h : Custody holds isOpen) (f : O → O') {holds' : O' → R → Prop}
    (hholds : ∀ b r, holds' b r ↔ ∃ a, holds a r ∧ f a = b) : Custody holds' isOpen where
  live b r hb := by
    obtain ⟨a, ha, -⟩ := (hholds b r).mp hb
    exact h.live a r ha
  held r hr := by
    obtain ⟨a, ha⟩ := h.held r hr
    exact ⟨f a, (hholds (f a) r).mpr ⟨a, ha, rfl⟩⟩
  exclusive b c r hb hc := by
    obtain ⟨a, ha, rfl⟩ := (hholds b r).mp hb
    obtain ⟨a', ha', rfl⟩ := (hholds c r).mp hc
    rw [h.exclusive a a' r ha ha']

end Custody
end Npb
