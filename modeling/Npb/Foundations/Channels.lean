import Mathlib.Logic.Function.Basic
import Npb.Foundations.Runs

/-! # Channels

Any number of queues, at whose ends items are put and from whose heads they are taken, in any order.
Whatever is taken from a queue has been put there before, in the same order, and nothing is lost or
taken twice (`fifo`). A queue of numbered items keeps them numbered (`Numbered`). -/

namespace Npb.Channels
set_option autoImplicit false

variable {L A : Type}

inductive Move (L A : Type) where
  | push (l : L) (a : A)
  | pop (l : L) (a : A)
  | idle

section Moves
variable [DecidableEq L]

/-- A move puts an item at the end of a queue, takes one from its head, or does neither. -/
inductive Moves (queues : L → List A) : Move L A → (L → List A) → Prop
  | push (l : L) (a : A) : Moves queues (.push l a) (Function.update queues l (queues l ++ [a]))
  | pop (l : L) (a : A) (rest : List A) (h : queues l = a :: rest) :
    Moves queues (.pop l a) (Function.update queues l rest)
  | idle : Moves queues .idle queues

def pushed (l : L) : Move L A → Option A
  | .push k a => if k = l then some a else none
  | _ => none

def popped (l : L) : Move L A → Option A
  | .pop k a => if k = l then some a else none
  | _ => none

variable {queues queues' : L → List A}

theorem Moves.balance {move : Move L A} (h : Moves queues move queues') (l : L) :
    queues l ++ (pushed l move).toList = (popped l move).toList ++ queues' l := by
  cases h with
  | idle => exact List.append_nil _
  | push k a =>
    by_cases hk : k = l
    · subst hk
      simp [pushed, popped]
    · simp [pushed, popped, hk, Function.update_of_ne (Ne.symm hk)]
  | pop k a rest hqueue =>
    by_cases hk : k = l
    · subst hk
      simp [pushed, popped, hqueue]
    · simp [pushed, popped, hk, Function.update_of_ne (Ne.symm hk)]

/-- What was in a queue and what is put there is what is taken and what is left, in this order. -/
theorem fifo {moves : List (Move L A)} (h : Run Moves queues moves queues') (l : L) :
    queues l ++ moves.filterMap (pushed l) = moves.filterMap (popped l) ++ queues' l := by
  induction h with
  | nil => simp
  | @snoc moves move queues₁ queues₂ hrun hlast ih =>
    have hbalance := hlast.balance l
    have hpush : [move].filterMap (pushed l) = (pushed l move).toList := by
      cases hmove : pushed l move <;> simp [hmove]
    have hpop : [move].filterMap (popped l) = (popped l move).toList := by
      cases hmove : popped l move <;> simp [hmove]
    rw [List.filterMap_append, List.filterMap_append, hpush, hpop, ← List.append_assoc, ih,
      List.append_assoc, List.append_assoc, hbalance]

end Moves

/-! ## Numbered items -/

section Numbered
variable {P : ℕ → A → Prop} {lo hi : ℕ} {queue : List A}

/-- The queue holds the items with the numbers from `lo` up to `hi`, in this order. -/
def Numbered (P : ℕ → A → Prop) : ℕ → List A → ℕ → Prop
  | lo, [], hi => lo = hi
  | lo, a :: rest, hi => P lo a ∧ Numbered P (lo + 1) rest hi

theorem Numbered.length (h : Numbered P lo queue hi) : lo + queue.length = hi := by
  induction queue generalizing lo with
  | nil => exact h
  | cons a rest ih =>
    have hrest := ih h.2
    rw [List.length_cons]
    omega

theorem Numbered.push {a : A} (h : Numbered P lo queue hi) (ha : P hi a) :
    Numbered P lo (queue ++ [a]) (hi + 1) := by
  induction queue generalizing lo with
  | nil =>
    obtain rfl : lo = hi := h
    exact ⟨ha, rfl⟩
  | cons b rest ih => exact ⟨h.1, ih h.2⟩

end Numbered
end Npb.Channels
