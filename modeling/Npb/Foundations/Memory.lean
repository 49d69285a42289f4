import Mathlib.Data.List.GetD
import Mathlib.Tactic.Ring

/-! # One flat byte memory

A memory gives a byte at every address; a window is a base address with a length. Writing a list
of bytes replaces a window, and two writes to adjacent windows are one write of the concatenation:
`write_write`. -/

namespace Npb
set_option autoImplicit false

abbrev Mem := ℤ → UInt8

namespace Mem

/-- The `n` bytes from address `p` on. -/
def read (m : Mem) (p : ℤ) (n : ℕ) : List UInt8 := (List.range n).map fun i : ℕ => m (p + i)

/-- Replace the bytes from address `p` on by `bs`. -/
def write (m : Mem) (p : ℤ) (bs : List UInt8) : Mem := fun x =>
  if p ≤ x ∧ x < p + bs.length then bs.getD (x - p).toNat 0 else m x

/-! ## Reading -/

@[simp] theorem read_length (m : Mem) (p : ℤ) (n : ℕ) : (m.read p n).length = n := by
  simp [read]

@[simp] theorem read_zero (m : Mem) (p : ℤ) : m.read p 0 = [] := rfl

theorem read_getElem (m : Mem) (p : ℤ) (n i : ℕ) (h : i < (m.read p n).length) :
    (m.read p n)[i] = m (p + i) := by
  simp [read]

theorem read_congr {m m' : Mem} {p p' : ℤ} {n : ℕ} (h : ∀ i : ℕ, i < n → m (p + i) = m' (p' + i)) :
    m.read p n = m'.read p' n :=
  List.map_congr_left fun i hi => h i (List.mem_range.mp hi)

theorem read_add (m : Mem) (p : ℤ) (a b : ℕ) :
    m.read p (a + b) = m.read p a ++ m.read (p + a) b := by
  rw [read, List.range_add, List.map_append, List.map_map]
  congr 1
  refine List.map_congr_left fun i _ => ?_
  simp [add_assoc]

theorem read_drop_take (m : Mem) (p : ℤ) {n k j : ℕ} (h : k + j ≤ n) :
    ((m.read p n).drop k).take j = m.read (p + k) j := by
  obtain ⟨r, rfl⟩ := Nat.exists_eq_add_of_le h
  rw [read_add, read_add, List.append_assoc, List.drop_left' (read_length ..),
    List.take_left' (read_length ..)]

/-- Reading `k` blocks of `n` bytes, each `n` after the one before. -/
theorem read_flatMap (m : Mem) (p : ℤ) (n k : ℕ) :
    ((List.range k).flatMap fun i : ℕ => m.read (p + i * n) n) = m.read p (k * n) := by
  induction k with
  | zero => simp
  | succ k ih =>
    rw [List.range_succ, List.flatMap_append, ih, Nat.succ_mul, read_add]
    simp

/-! ## Writing -/

theorem write_of_lt (m : Mem) (p : ℤ) (bs : List UInt8) {i : ℕ} (h : i < bs.length) :
    m.write p bs (p + i) = bs[i] := by
  have e : (p + i - p).toNat = i := by omega
  rw [write, if_pos (by omega), e, List.getD_eq_getElem _ _ h]

theorem write_of_not_mem (m : Mem) (p : ℤ) (bs : List UInt8) {x : ℤ}
    (h : x < p ∨ p + bs.length ≤ x) : m.write p bs x = m x :=
  if_neg (by omega)

theorem write_append_of_lt (m : Mem) (p : ℤ) (xs ys : List UInt8) {x : ℤ} (h : x < p + xs.length) :
    m.write p (xs ++ ys) x = m.write p xs x := by
  by_cases hlo : x < p
  · rw [write_of_not_mem _ _ _ (.inl hlo), write_of_not_mem _ _ _ (.inl hlo)]
  obtain ⟨i, rfl⟩ : ∃ i : ℕ, x = p + i := ⟨(x - p).toNat, by omega⟩
  have hi : i < xs.length := by omega
  have hi' : i < (xs ++ ys).length := by
    rw [List.length_append]
    omega
  rw [write_of_lt _ _ _ hi', write_of_lt _ _ _ hi, List.getElem_append_left hi]

@[simp] theorem write_nil (m : Mem) (p : ℤ) : m.write p [] = m := by
  funext x
  exact write_of_not_mem m p [] (by simp; omega)

theorem write_write (m : Mem) (p q : ℤ) (xs ys : List UInt8) (hq : q = p + xs.length) :
    (m.write p xs).write q ys = m.write p (xs ++ ys) := by
  subst hq
  funext x
  have hl : (xs ++ ys).length = xs.length + ys.length := List.length_append
  by_cases h₁ : x < p ∨ p + (xs ++ ys).length ≤ x
  · rw [write_of_not_mem _ _ _ h₁, write_of_not_mem _ _ _ (by omega),
      write_of_not_mem _ _ _ (by omega)]
  obtain ⟨i, rfl⟩ : ∃ i : ℕ, x = p + i := ⟨(x - p).toNat, by omega⟩
  rw [write_of_lt _ _ _ (by omega)]
  by_cases h₂ : i < xs.length
  · rw [write_of_not_mem _ _ _ (by omega), write_of_lt _ _ _ h₂, List.getElem_append_left h₂]
  · obtain ⟨j, rfl⟩ := Nat.exists_eq_add_of_le (Nat.le_of_not_lt h₂)
    have e : p + ((xs.length + j : ℕ) : ℤ) = p + xs.length + (j : ℕ) := by push_cast; ring
    rw [e, write_of_lt _ _ _ (by omega), List.getElem_append_right (by omega)]
    simp

/-- A second write over the start of an earlier one. -/
theorem write_overlay (m : Mem) (p : ℤ) (xs ys : List UInt8) (h : ys.length ≤ xs.length) :
    (m.write p xs).write p ys = m.write p (ys ++ xs.drop ys.length) := by
  have hl : (ys ++ xs.drop ys.length).length = xs.length := by
    rw [List.length_append, List.length_drop]; omega
  funext x
  by_cases h₁ : x < p ∨ p + xs.length ≤ x
  · rw [write_of_not_mem _ _ _ (by omega), write_of_not_mem _ _ _ h₁,
      write_of_not_mem _ _ _ (by omega)]
  obtain ⟨i, rfl⟩ : ∃ i : ℕ, x = p + i := ⟨(x - p).toNat, by omega⟩
  rw [write_of_lt m p (ys ++ _) (by omega)]
  by_cases h₂ : i < ys.length
  · rw [write_of_lt _ _ _ h₂, List.getElem_append_left h₂]
  · rw [write_of_not_mem _ _ _ (by omega), write_of_lt _ _ _ (by omega),
      List.getElem_append_right (by omega), List.getElem_drop]
    congr 1
    omega

theorem read_write (m : Mem) (p : ℤ) (bs : List UInt8) {k j : ℕ} (h : k + j ≤ bs.length) :
    (m.write p bs).read (p + k) j = (bs.drop k).take j := by
  apply List.ext_getElem
  · simp; omega
  · intro i hi _
    rw [read_length] at hi
    have e : p + (k : ℤ) + (i : ℤ) = p + ((k + i : ℕ) : ℤ) := by push_cast; ring
    rw [read_getElem, e, write_of_lt _ _ _ (by omega), List.getElem_take, List.getElem_drop]

theorem read_write_self (m : Mem) (p : ℤ) (bs : List UInt8) :
    (m.write p bs).read p bs.length = bs := by
  have h := read_write m p bs (k := 0) (j := bs.length) (by simp)
  simpa using h

end Mem
end Npb
