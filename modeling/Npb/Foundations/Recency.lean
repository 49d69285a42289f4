import Mathlib.Data.List.Dedup
import Mathlib.Data.List.DropRight

/-! # Recency lists

The last `c` distinct elements of a list of requests, the least recently requested first, and what
one request more does to them (`recent_concat`). A cache that drops the least recently used key
holds these keys. -/

namespace Npb
set_option autoImplicit false

variable {κ : Type} [DecidableEq κ]

def recent (c : ℕ) (requests : List κ) : List κ := requests.dedup.rtake c

/-- The key goes to the end, and the first keys go when there are more than `c`. -/
def touch (c : ℕ) (keys : List κ) (key : κ) : List κ := (keys.filter (· ≠ key) ++ [key]).rtake c

section Laws
variable {α : Type} {c : ℕ} {requests keys : List κ} {key : κ}

theorem rtake_append_of_le (xs : List α) {ys : List α} (h : c ≤ ys.length) :
    (xs ++ ys).rtake c = ys.rtake c := by
  have hlength : (xs ++ ys).length - c = xs.length + (ys.length - c) := by
    rw [List.length_append]
    omega
  rw [List.rtake, hlength, List.drop_length_add_append, List.rtake]

theorem rtake_of_length_le {xs : List α} (h : xs.length ≤ c) : xs.rtake c = xs := by
  rw [List.rtake, Nat.sub_eq_zero_of_le h, List.drop_zero]

theorem length_rtake (xs : List α) (c : ℕ) : (xs.rtake c).length = min c xs.length := by
  rw [List.rtake, List.length_drop]
  omega

theorem dedup_concat (requests : List κ) (key : κ) :
    (requests ++ [key]).dedup = requests.dedup.filter (· ≠ key) ++ [key] := by
  induction requests with
  | nil => rfl
  | cons k requests ih =>
    by_cases hk : k ∈ requests
    · rw [List.cons_append, List.dedup_cons_of_mem (List.mem_append_left _ hk), ih,
        List.dedup_cons_of_mem hk]
    rw [List.dedup_cons_of_notMem hk, List.cons_append]
    by_cases heq : k = key
    · subst heq
      rw [List.dedup_cons_of_mem (by simp), ih, List.filter_cons_of_neg (by simp)]
    · rw [List.dedup_cons_of_notMem (by simp [hk, heq]), ih,
        List.filter_cons_of_pos (by simp [heq]), List.cons_append]

/-- A key occurs at most once, so that at most one element goes. -/
theorem length_filter_ne (h : keys.Nodup) (key : κ) :
    keys.length ≤ (keys.filter (· ≠ key)).length + 1 := by
  have hcount := List.nodup_iff_count_le_one.mp h key
  have hlength := List.length_eq_countP_add_countP (· == key) (l := keys)
  have hne : keys.countP (fun k => !(k == key)) = (keys.filter (· ≠ key)).length := by
    rw [List.countP_eq_length_filter]
    congr 1
    exact List.filter_congr fun k _ => by simp [beq_eq_decide]
  unfold List.count at hcount
  simp only [Bool.not_eq_true, Bool.decide_eq_false] at hlength
  omega

theorem recent_concat (hc : 1 ≤ c) (requests : List κ) (key : κ) :
    recent c (requests ++ [key]) = touch c (recent c requests) key := by
  obtain ⟨n, rfl⟩ : ∃ n, c = n + 1 := ⟨c - 1, by omega⟩
  have hnodup := List.nodup_dedup requests
  have hsplit : requests.dedup =
      requests.dedup.take (requests.dedup.length - (n + 1)) ++ requests.dedup.rtake (n + 1) :=
    (List.take_append_drop _ _).symm
  unfold recent touch
  rw [dedup_concat, List.rtake_concat_succ, List.rtake_concat_succ]
  congr 1
  by_cases hle : requests.dedup.length ≤ n + 1
  · rw [rtake_of_length_le hle]
  · conv_lhs => rw [hsplit, List.filter_append]
    apply rtake_append_of_le
    have hnodup' : (requests.dedup.rtake (n + 1)).Nodup := hnodup.sublist (List.drop_sublist _ _)
    have hlast := length_filter_ne hnodup' key
    rw [length_rtake] at hlast
    omega

end Laws
end Npb
