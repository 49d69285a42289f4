import Mathlib.Data.Set.Insert
import Mathlib.Order.Basic

/-! # Delegated rights

Tokens carry rights to one thing. Whoever holds some of them can be given another one that carries
no more than one of those does, and everybody else can do the same with tokens of their own. However
long this goes on, and whatever is taken away meanwhile, the holder never comes to more than the
tokens he started with (`Confined.step`). -/

namespace Npb
set_option autoImplicit false

/-- The rights of the tokens that are in force. -/
abbrev Holdings (τ ρ : Type) := τ → Option ρ

variable {τ ρ : Type} [Preorder ρ]

/-- One move, by the holder of some tokens (`own`) or by somebody else. -/
inductive Delegates (own : Bool) :
    Set τ × Holdings τ ρ → Set τ × Holdings τ ρ → Prop
  | loses {held : Set τ} {h h' : Holdings τ ρ} (hless : ∀ t r, h' t = some r → h t = some r) :
    Delegates own (held, h) (held, h')
  /-- The holder gets a token for something else. -/
  | elsewhere {held : Set τ} {h h' : Holdings τ ρ} (t : τ)
    (hless : ∀ u r, h' u = some r → h u = some r) (hnone : h' t = none) :
    Delegates own (held, h) (insert t held, h')
  | grants {held held' : Set τ} {h h' : Holdings τ ρ} (issuer t : τ) (r r' : ρ)
    (hissuer : h issuer = some r) (hle : r' ≤ r) (hown : own = true → issuer ∈ held)
    (hfresh : t ∉ held) (hnew : h' t = some r') (hold : ∀ u, u ≠ t → h' u = h u)
    (hheld : held' = if own then insert t held else held) : Delegates own (held, h) (held', h')

/-- No token that is held carries more than `p`. -/
def Confined (p : ρ) (x : Set τ × Holdings τ ρ) : Prop :=
  ∀ t ∈ x.1, ∀ r, x.2 t = some r → r ≤ p

theorem Confined.step {p : ρ} {own : Bool} {x y : Set τ × Holdings τ ρ} (h : Confined p x)
    (hstep : Delegates own x y) : Confined p y := by
  intro u hu q hq
  cases hstep with
  | loses hless => exact h u hu q (hless u q hq)
  | elsewhere t hless hnone =>
    obtain rfl | hu := Set.mem_insert_iff.mp hu
    · cases hnone.symm.trans hq
    · exact h u hu q (hless u q hq)
  | grants issuer t r r' hissuer hle hown hfresh hnew hold hheld =>
    subst hheld
    by_cases hut : u = t
    · subst hut
      cases hnew.symm.trans hq
      -- The new token is held only if the holder asked for it, with a token of his.
      cases own with
      | true => exact hle.trans (h issuer (hown rfl) r hissuer)
      | false => exact absurd hu hfresh
    · refine h u ?_ q ((hold u hut).symm.trans hq)
      cases own with
      | true => exact (Set.mem_insert_iff.mp hu).resolve_left hut
      | false => exact hu

end Npb
