import Npb.Foundations.Checks

/-! # Ordered trees of lists and string-keyed mappings

The shape JSON documents, manifests and decoded messages share: leaves of any type, lists, and
mappings kept as item lists in insertion order. `subst` replaces leaves by trees, `bindM` does so
with effects, one leaf after the other in document order. The rules at the end lift a fact about
one leaf to the whole traversal. -/

namespace Npb
set_option autoImplicit false

inductive Tree (α : Type) where
  | leaf (a : α)
  | list (xs : List (Tree α))
  | dict (kvs : List (String × Tree α))

namespace Tree
open Effects

variable {α β γ : Type}

/-- Induction over the elements of lists and the values of mappings. -/
@[elab_as_elim, induction_eliminator]
theorem induct {motive : Tree α → Prop} (leaf : ∀ a, motive (.leaf a))
    (list : ∀ xs, (∀ x ∈ xs, motive x) → motive (.list xs))
    (dict : ∀ kvs, (∀ kv ∈ kvs, motive kv.2) → motive (.dict kvs)) (t : Tree α) : motive t :=
  Tree.rec (motive_1 := motive) (motive_2 := fun xs => ∀ x ∈ xs, motive x)
    (motive_3 := fun kvs => ∀ kv ∈ kvs, motive kv.2) (motive_4 := fun kv => motive kv.2)
    leaf list dict (by simp)
    (fun _ _ hx hxs y hy => (List.mem_cons.mp hy).elim (fun h => h ▸ hx) (hxs y)) (by simp)
    (fun _ _ hx hxs y hy => (List.mem_cons.mp hy).elim (fun h => h ▸ hx) (hxs y))
    (fun _ _ h => h) t

/-! ## Equality -/

mutual
def decEq [DecidableEq α] : (s t : Tree α) → Decidable (s = t)
  | .leaf a, .leaf b => decidable_of_iff (a = b) ⟨congrArg leaf, leaf.inj⟩
  | .list xs, .list ys => match decEqList xs ys with
    | isTrue h => isTrue (congrArg list h)
    | isFalse h => isFalse fun e => h (list.inj e)
  | .dict kvs, .dict kvs' => match decEqItems kvs kvs' with
    | isTrue h => isTrue (congrArg dict h)
    | isFalse h => isFalse fun e => h (dict.inj e)
  | .leaf _, .list _ | .leaf _, .dict _ | .list _, .leaf _ | .list _, .dict _ | .dict _, .leaf _
  | .dict _, .list _ => isFalse nofun

def decEqList [DecidableEq α] : (xs ys : List (Tree α)) → Decidable (xs = ys)
  | [], [] => isTrue rfl
  | x :: xs, y :: ys => match decEq x y, decEqList xs ys with
    | isTrue h, isTrue hs => isTrue (by rw [h, hs])
    | isFalse h, _ => isFalse fun e => h (List.cons.inj e).1
    | _, isFalse hs => isFalse fun e => hs (List.cons.inj e).2
  | [], _ :: _ | _ :: _, [] => isFalse nofun

def decEqItems [DecidableEq α] : (kvs kvs' : List (String × Tree α)) → Decidable (kvs = kvs')
  | [], [] => isTrue rfl
  | (k, v) :: kvs, (k', v') :: kvs' =>
    match decEq v v', decEqItems kvs kvs' with
    | isTrue h, isTrue hs => decidable_of_iff (k = k') (by simp [h, hs])
    | isFalse h, _ => isFalse fun e => h (Prod.mk.inj (List.cons.inj e).1).2
    | _, isFalse hs => isFalse fun e => hs (List.cons.inj e).2
  | [], _ :: _ | _ :: _, [] => isFalse nofun
end

instance [DecidableEq α] : DecidableEq (Tree α) := decEq

/-! ## Leaves, substitution and mappings -/

mutual
/-- The leaves in document order. -/
def leaves : Tree α → List α
  | .leaf a => [a]
  | .list xs => leavesList xs
  | .dict kvs => leavesItems kvs

def leavesList : List (Tree α) → List α
  | [] => []
  | x :: xs => leaves x ++ leavesList xs

def leavesItems : List (String × Tree α) → List α
  | [] => []
  | (_, v) :: kvs => leaves v ++ leavesItems kvs
end

mutual
/-- Replace every leaf by a tree. -/
def subst (g : α → Tree β) : Tree α → Tree β
  | .leaf a => g a
  | .list xs => .list (substList g xs)
  | .dict kvs => .dict (substItems g kvs)

def substList (g : α → Tree β) : List (Tree α) → List (Tree β)
  | [] => []
  | x :: xs => subst g x :: substList g xs

def substItems (g : α → Tree β) : List (String × Tree α) → List (String × Tree β)
  | [] => []
  | (k, v) :: kvs => (k, subst g v) :: substItems g kvs
end

def map (f : α → β) (t : Tree α) : Tree β := t.subst fun a => .leaf (f a)

mutual
/-- Every mapping in the tree, at any depth, has items satisfying `P`. -/
def EveryDict (P : List (String × Tree α) → Prop) : Tree α → Prop
  | .leaf _ => True
  | .list xs => EveryDictList P xs
  | .dict kvs => P kvs ∧ EveryDictItems P kvs

def EveryDictList (P : List (String × Tree α) → Prop) : List (Tree α) → Prop
  | [] => True
  | x :: xs => EveryDict P x ∧ EveryDictList P xs

def EveryDictItems (P : List (String × Tree α) → Prop) : List (String × Tree α) → Prop
  | [] => True
  | (_, v) :: kvs => EveryDict P v ∧ EveryDictItems P kvs
end

/-- The value of a mapping that has `k` as its only key. -/
def soleValue (k : String) : List (String × Tree α) → Option (Tree α)
  | [(k', v)] => if k' = k then some v else none
  | _ => none

theorem leavesList_eq (xs : List (Tree α)) : leavesList xs = xs.flatMap leaves := by
  induction xs with
  | nil => rfl
  | cons x xs ih => rw [leavesList, ih, List.flatMap_cons]

theorem leavesItems_eq (kvs : List (String × Tree α)) :
    leavesItems kvs = kvs.flatMap fun kv => kv.2.leaves := by
  induction kvs with
  | nil => rfl
  | cons kv kvs ih => rw [leavesItems, ih, List.flatMap_cons]

theorem substList_eq (g : α → Tree β) (xs : List (Tree α)) : substList g xs = xs.map (subst g) := by
  induction xs with
  | nil => rfl
  | cons x xs ih => rw [substList, ih, List.map_cons]

theorem substItems_eq (g : α → Tree β) (kvs : List (String × Tree α)) :
    substItems g kvs = kvs.map fun kv => (kv.1, kv.2.subst g) := by
  induction kvs with
  | nil => rfl
  | cons kv kvs ih => rw [substItems, ih, List.map_cons]

theorem everyDictList_iff {P : List (String × Tree α) → Prop} (xs : List (Tree α)) :
    EveryDictList P xs ↔ ∀ x ∈ xs, EveryDict P x := by
  induction xs with
  | nil => simp [EveryDictList]
  | cons x xs ih => simp [EveryDictList, ih]

theorem everyDictItems_iff {P : List (String × Tree α) → Prop} (kvs : List (String × Tree α)) :
    EveryDictItems P kvs ↔ ∀ kv ∈ kvs, EveryDict P kv.2 := by
  induction kvs with
  | nil => simp [EveryDictItems]
  | cons kv kvs ih => simp [EveryDictItems, ih]

@[simp] theorem leaves_leaf (a : α) : (leaf a).leaves = [a] := rfl

@[simp] theorem leaves_list (xs : List (Tree α)) : (list xs).leaves = xs.flatMap leaves :=
  leavesList_eq xs

@[simp] theorem leaves_dict (kvs : List (String × Tree α)) :
    (dict kvs).leaves = kvs.flatMap fun kv => kv.2.leaves :=
  leavesItems_eq kvs

@[simp] theorem subst_leaf (g : α → Tree β) (a : α) : (leaf a).subst g = g a := rfl

@[simp] theorem subst_list (g : α → Tree β) (xs : List (Tree α)) :
    (list xs).subst g = .list (xs.map (subst g)) := by
  rw [subst, substList_eq]

@[simp] theorem subst_dict (g : α → Tree β) (kvs : List (String × Tree α)) :
    (dict kvs).subst g = .dict (kvs.map fun kv => (kv.1, kv.2.subst g)) := by
  rw [subst, substItems_eq]

@[simp] theorem everyDict_leaf (P : List (String × Tree α) → Prop) (a : α) :
    EveryDict P (leaf a) ↔ True := Iff.rfl

@[simp] theorem everyDict_list (P : List (String × Tree α) → Prop) (xs : List (Tree α)) :
    EveryDict P (list xs) ↔ ∀ x ∈ xs, EveryDict P x := by
  rw [EveryDict, everyDictList_iff]

@[simp] theorem everyDict_dict (P : List (String × Tree α) → Prop)
    (kvs : List (String × Tree α)) :
    EveryDict P (dict kvs) ↔ P kvs ∧ ∀ kv ∈ kvs, EveryDict P kv.2 := by
  rw [EveryDict, everyDictItems_iff]

theorem subst_congr {g h : α → Tree β} (t : Tree α) (e : ∀ a ∈ t.leaves, g a = h a) :
    t.subst g = t.subst h := by
  induction t with
  | leaf a => exact e a (by simp)
  | list xs ih =>
    rw [subst_list, subst_list]
    congr 1
    refine List.map_congr_left fun x hx => ih x hx fun a ha => e a ?_
    rw [leaves_list]
    exact List.mem_flatMap.mpr ⟨x, hx, ha⟩
  | dict kvs ih =>
    rw [subst_dict, subst_dict]
    congr 1
    refine List.map_congr_left fun kv hkv => ?_
    rw [ih kv hkv fun a ha => e a ?_]
    rw [leaves_dict]
    exact List.mem_flatMap.mpr ⟨kv, hkv, ha⟩

theorem map_congr {f g : α → β} (t : Tree α) (e : ∀ a ∈ t.leaves, f a = g a) :
    t.map f = t.map g :=
  subst_congr t fun a ha => by rw [e a ha]

theorem map_dict (f : α → β) (kvs : List (String × Tree α)) :
    (dict kvs).map f = .dict (kvs.map fun kv => (kv.1, kv.2.map f)) := subst_dict _ kvs

theorem eq_dict_of_map {f : α → β} {t : Tree α} {items : List (String × Tree β)}
    (h : t.map f = .dict items) : ∃ kvs, t = .dict kvs := by
  cases t with
  | leaf a => cases h
  | list xs => cases h
  | dict kvs => exact ⟨kvs, rfl⟩

theorem soleValue_eq_some {k : String} {kvs : List (String × Tree α)} {v : Tree α} :
    soleValue k kvs = some v ↔ kvs = [(k, v)] := by
  match kvs with
  | [] => simp [soleValue]
  | [(k', v')] =>
    simp only [soleValue, List.cons.injEq, Prod.mk.injEq, and_true]
    split <;> simp_all
  | _ :: _ :: _ => simp [soleValue]

theorem soleValue_of_keys {k : String} {kvs : List (String × Tree α)}
    (h : kvs.map Prod.fst ≠ [k]) : soleValue k kvs = none := by
  cases hsole : soleValue k kvs with
  | none => rfl
  | some v =>
    rw [soleValue_eq_some] at hsole
    exact absurd (by rw [hsole]; rfl) h

theorem leaves_subst (g : α → Tree β) (t : Tree α) :
    (t.subst g).leaves = t.leaves.flatMap fun a => (g a).leaves := by
  induction t with
  | leaf a => simp
  | list xs ih =>
    rw [subst_list, leaves_list, leaves_list, List.flatMap_map, List.flatMap_assoc]
    exact List.flatMap_congr fun x hx => ih x hx
  | dict kvs ih =>
    rw [subst_dict, leaves_dict, leaves_dict, List.flatMap_map, List.flatMap_assoc]
    exact List.flatMap_congr fun kv hkv => ih kv hkv

theorem leaves_map (f : α → β) (t : Tree α) : (t.map f).leaves = t.leaves.map f := by
  rw [map, leaves_subst]
  exact List.map_eq_flatMap.symm

theorem subst_subst (h : β → Tree γ) (g : α → Tree β) (t : Tree α) :
    (t.subst g).subst h = t.subst fun a => (g a).subst h := by
  induction t with
  | leaf a => rfl
  | list xs ih =>
    simp only [subst_list, List.map_map]
    congr 1
    exact List.map_congr_left fun x hx => ih x hx
  | dict kvs ih =>
    simp only [subst_dict, List.map_map]
    congr 1
    exact List.map_congr_left fun kv hkv => congrArg (Prod.mk kv.1) (ih kv hkv)

theorem map_subst (f : β → γ) (g : α → Tree β) (t : Tree α) :
    (t.subst g).map f = t.subst fun a => (g a).map f :=
  subst_subst (fun b => .leaf (f b)) g t

theorem EveryDict.mono {P Q : List (String × Tree α) → Prop} (h : ∀ kvs, P kvs → Q kvs)
    {t : Tree α} (ht : t.EveryDict P) : t.EveryDict Q := by
  induction t with
  | leaf a => trivial
  | list xs ih =>
    rw [everyDict_list] at ht ⊢
    exact fun x hx => ih x hx (ht x hx)
  | dict kvs ih =>
    rw [everyDict_dict] at ht ⊢
    exact ⟨h kvs ht.1, fun kv hkv => ih kv hkv (ht.2 kv hkv)⟩

/-- Substitution keeps every mapping, with its items substituted in, and adds those of the trees
that are put in. -/
theorem everyDict_subst {P : List (String × Tree β) → Prop} (g : α → Tree β) (t : Tree α) :
    (t.subst g).EveryDict P ↔ (t.EveryDict fun kvs => P (kvs.map fun kv => (kv.1, kv.2.subst g))) ∧
      ∀ a ∈ t.leaves, (g a).EveryDict P := by
  induction t with
  | leaf a => simp
  | list xs ih =>
    rw [subst_list, everyDict_list, everyDict_list, List.forall_mem_map, leaves_list,
      List.forall_mem_flatMap, ← forall₂_and]
    exact forall₂_congr fun x hx => ih x hx
  | dict kvs ih =>
    rw [subst_dict, everyDict_dict, everyDict_dict, List.forall_mem_map, leaves_dict,
      List.forall_mem_flatMap, and_assoc, ← forall₂_and]
    exact and_congr Iff.rfl (forall₂_congr fun kv hkv => ih kv hkv)

theorem everyDict_map {P : List (String × Tree β) → Prop} (f : α → β) (t : Tree α) :
    (t.map f).EveryDict P ↔ t.EveryDict fun kvs => P (kvs.map fun kv => (kv.1, kv.2.map f)) :=
  (everyDict_subst _ t).trans (and_iff_left fun _ _ => trivial)

theorem subst_map (g : β → Tree γ) (f : α → β) (t : Tree α) :
    (t.map f).subst g = t.subst fun a => g (f a) :=
  subst_subst g (fun a => .leaf (f a)) t

theorem map_map {γ : Type} (g : β → γ) (f : α → β) (t : Tree α) :
    (t.map f).map g = t.map fun a => g (f a) :=
  map_subst g (fun a => .leaf (f a)) t

theorem map_id (t : Tree α) : t.map (fun a => a) = t := by
  induction t with
  | leaf a => rfl
  | list xs ih =>
    rw [map, subst_list]
    congr 1
    conv_rhs => rw [← List.map_id xs]
    exact List.map_congr_left fun x hx => ih x hx
  | dict kvs ih =>
    rw [map, subst_dict]
    congr 1
    conv_rhs => rw [← List.map_id kvs]
    exact List.map_congr_left fun kv hkv => congrArg (Prod.mk kv.1) (ih kv hkv)

/-! ## Effectful substitution -/

section Monadic
variable {m : Type → Type} [Monad m]

mutual
/-- Replace every leaf by the tree an effectful function returns for it, in document order. -/
def bindM (f : α → m (Tree β)) : Tree α → m (Tree β)
  | .leaf a => f a
  | .list xs => do
    let ys ← bindListM f xs
    return .list ys
  | .dict kvs => do
    let items ← bindItemsM f kvs
    return .dict items

def bindListM (f : α → m (Tree β)) : List (Tree α) → m (List (Tree β))
  | [] => return []
  | x :: xs => do
    let y ← bindM f x
    let ys ← bindListM f xs
    return y :: ys

def bindItemsM (f : α → m (Tree β)) : List (String × Tree α) → m (List (String × Tree β))
  | [] => return []
  | (k, v) :: kvs => do
    let y ← bindM f v
    let items ← bindItemsM f kvs
    return (k, y) :: items
end

/-- The effectful substitution in one item of a mapping. -/
def bindItemM (f : α → m (Tree β)) (kv : String × Tree α) : m (String × Tree β) := do
  let y ← bindM f kv.2
  return (kv.1, y)

variable [LawfulMonad m]

theorem bindListM_eq (f : α → m (Tree β)) (xs : List (Tree α)) :
    bindListM f xs = xs.mapM (bindM f) := by
  induction xs with
  | nil => rw [bindListM, List.mapM_nil]
  | cons x xs ih => rw [bindListM, ih, List.mapM_cons]

theorem bindItemsM_eq (f : α → m (Tree β)) (kvs : List (String × Tree α)) :
    bindItemsM f kvs = kvs.mapM (bindItemM f) := by
  induction kvs with
  | nil => rw [bindItemsM, List.mapM_nil]
  | cons kv kvs ih => simp only [bindItemsM, ih, List.mapM_cons, bindItemM, bind_assoc, pure_bind]

omit [LawfulMonad m] in
@[simp] theorem bindM_leaf (f : α → m (Tree β)) (a : α) : bindM f (leaf a) = f a := rfl

theorem bindM_list (f : α → m (Tree β)) (xs : List (Tree α)) :
    bindM f (list xs) = (do let ys ← xs.mapM (bindM f); return .list ys) := by
  rw [bindM, bindListM_eq]

theorem bindM_dict (f : α → m (Tree β)) (kvs : List (String × Tree α)) :
    bindM f (dict kvs) = (do let items ← kvs.mapM (bindItemM f); return .dict items) := by
  rw [bindM, bindItemsM_eq]

theorem bindM_subst (f : β → m (Tree γ)) (g : α → Tree β) (t : Tree α) :
    bindM f (t.subst g) = bindM (fun a => bindM f (g a)) t := by
  induction t with
  | leaf a => rfl
  | list xs ih =>
    rw [subst_list, bindM_list, bindM_list, List.mapM_map]
    congr 1
    exact mapM_congr xs fun x hx => ih x hx
  | dict kvs ih =>
    rw [subst_dict, bindM_dict, bindM_dict, List.mapM_map]
    congr 1
    refine mapM_congr kvs fun kv hkv => ?_
    rw [Function.comp, bindItemM, bindItemM, ih kv hkv]

theorem bindM_map (f : β → m (Tree γ)) (g : α → β) (t : Tree α) :
    bindM f (t.map g) = bindM (fun a => f (g a)) t :=
  bindM_subst f (fun a => .leaf (g a)) t

/-- Substituting in the result is substituting in what each leaf returns. -/
theorem map_bindM (g : β → Tree γ) (f : α → m (Tree β)) (t : Tree α) :
    subst g <$> bindM f t = bindM (fun a => subst g <$> f a) t := by
  induction t with
  | leaf a => rfl
  | list xs ih =>
    have hxs : xs.mapM (bindM fun a => subst g <$> f a) =
        List.map (subst g) <$> xs.mapM (bindM f) := by
      induction xs with
      | nil => simp
      | cons x xs ihx =>
        have hx := ih x (List.mem_cons_self ..)
        have ht := ihx fun y hy => ih y (List.mem_cons_of_mem x hy)
        rw [List.mapM_cons, List.mapM_cons, ← hx, ht]
        simp only [map_eq_pure_bind, bind_assoc, pure_bind, List.map_cons]
    rw [bindM_list, bindM_list, hxs]
    simp only [map_eq_pure_bind, bind_assoc, pure_bind, subst_list]
  | dict kvs ih =>
    have hkvs : kvs.mapM (bindItemM fun a => subst g <$> f a) =
        List.map (fun kv => (kv.1, kv.2.subst g)) <$> kvs.mapM (bindItemM f) := by
      induction kvs with
      | nil => simp
      | cons kv kvs ihk =>
        have hx := ih kv (List.mem_cons_self ..)
        have ht := ihk fun y hy => ih y (List.mem_cons_of_mem kv hy)
        rw [List.mapM_cons, List.mapM_cons, bindItemM, bindItemM, ← hx, ht]
        simp only [map_eq_pure_bind, bind_assoc, pure_bind, List.map_cons]
    rw [bindM_dict, bindM_dict, hkvs]
    simp only [map_eq_pure_bind, bind_assoc, pure_bind, subst_dict]

theorem discard_bindM (f : α → m (Tree β)) (t : Tree α) :
    discard (bindM f t) = discard (t.leaves.mapM f) := by
  induction t with
  | leaf a =>
    rw [leaves_leaf, List.mapM_cons]
    simp only [List.mapM_nil, pure_bind]
    exact (discard_pure _ _).symm
  | list xs ih =>
    rw [bindM_list, leaves_list, discard_pure]
    exact discard_mapM_flatMap xs ih
  | dict kvs ih =>
    rw [bindM_dict, leaves_dict, discard_pure]
    refine discard_mapM_flatMap kvs fun kv hkv => ?_
    rw [bindItemM, discard_pure]
    exact ih kv hkv

end Monadic

theorem bindM_fromExcept {ε S : Type} (f : α → Except ε (Tree β)) (t : Tree α) :
    bindM (fun a => (fromExcept (f a) : EStateM ε S (Tree β))) t = fromExcept (bindM f t) := by
  induction t with
  | leaf a => rfl
  | list xs ih =>
    rw [bindM_list, bindM_list, mapM_congr xs ih, mapM_fromExcept, ← fromExcept_bind]
    rfl
  | dict kvs ih =>
    have hitem : ∀ kv ∈ kvs, bindItemM (fun a => (fromExcept (f a) : EStateM ε S (Tree β))) kv =
        fromExcept (bindItemM f kv) := by
      intro kv hkv
      rw [bindItemM, bindItemM, ih kv hkv, ← fromExcept_bind]
      rfl
    rw [bindM_dict, bindM_dict, mapM_congr kvs hitem, mapM_fromExcept, ← fromExcept_bind]
    rfl

/-! ## Rules for a traversal -/

section Rules
variable {ε S : Type} {f : α → EStateM ε S (Tree β)}

/-- A relation that every leaf keeps holds from the start of the traversal to where it stopped. -/
theorem bindM_keeps {R : S → S → Prop} (refl : ∀ s, R s s)
    (trans : ∀ s₁ s₂ s₃, R s₁ s₂ → R s₂ s₃ → R s₁ s₃) (t : Tree α)
    (step : ∀ a ∈ t.leaves, ∀ s, R s (finalState (f a s))) (s : S) :
    R s (finalState (bindM f t s)) := by
  induction t generalizing s with
  | leaf a => exact step a (by simp) s
  | list xs ih =>
    have h := mapM_keeps refl trans xs (fun x hx => ih x hx fun a ha => step a (by
      rw [leaves_list]; exact List.mem_flatMap.mpr ⟨x, hx, ha⟩)) s
    rw [bindM_list, bind_run]
    cases hr : xs.mapM (bindM f) s <;> simpa [hr] using h
  | dict kvs ih =>
    have h := mapM_keeps (f := bindItemM f) refl trans kvs (fun kv hkv s => by
      have hv := ih kv hkv (fun a ha => step a (by
        rw [leaves_dict]; exact List.mem_flatMap.mpr ⟨kv, hkv, ha⟩)) s
      rw [bindItemM, bind_run]
      cases hr : bindM f kv.2 s <;> simpa [hr] using hv) s
    rw [bindM_dict, bind_run]
    cases hr : kvs.mapM (bindItemM f) s <;> simpa [hr] using h

theorem bindM_pure {g : α → Tree β} {s : S} (t : Tree α)
    (step : ∀ a ∈ t.leaves, f a s = .ok (g a) s) : bindM f t s = .ok (t.subst g) s := by
  induction t with
  | leaf a => exact step a (by simp)
  | list xs ih =>
    rw [bindM_list, bind_ok (mapM_pure (g := subst g) xs fun x hx => ih x hx fun a ha =>
      step a (by rw [leaves_list]; exact List.mem_flatMap.mpr ⟨x, hx, ha⟩)), subst_list, pure_run]
  | dict kvs ih =>
    rw [bindM_dict, bind_ok (mapM_pure (g := fun kv => (kv.1, kv.2.subst g)) kvs fun kv hkv => by
      rw [bindItemM, bind_ok (ih kv hkv fun a ha => step a (by
        rw [leaves_dict]; exact List.mem_flatMap.mpr ⟨kv, hkv, ha⟩)), pure_run]),
      subst_dict, pure_run]

/-- What holds of every leaf of a result when it is produced, and survives the later leaves, holds
of every leaf of the tree a traversal returns. -/
theorem bindM_post {I : S → Prop} {Q : S → β → Prop} (t : Tree α)
    (step : ∀ a ∈ t.leaves, ∀ s y s', I s → f a s = .ok y s' →
      I s' ∧ (∀ b ∈ y.leaves, Q s' b) ∧ ∀ b, Q s b → Q s' b)
    {s s' : S} {y : Tree β} (hI : I s) (hrun : bindM f t s = .ok y s') :
    I s' ∧ (∀ b ∈ y.leaves, Q s' b) ∧ ∀ b, Q s b → Q s' b := by
  induction t generalizing s s' y with
  | leaf a => exact step a (by simp) s y s' hI hrun
  | list xs ih =>
    rw [bindM_list] at hrun
    obtain ⟨ys, s₁, hxs, hrun⟩ := bind_eq_ok.mp hrun
    cases hrun
    have h := mapM_post (I := fun s₂ => I s₂ ∧ ∀ b, Q s b → Q s₂ b)
      (Q := fun s₂ y => ∀ b ∈ y.leaves, Q s₂ b) xs (fun x hx s₂ y s₃ hI₂ hy => by
        obtain ⟨h₁, h₂, h₃⟩ := ih x hx (fun a ha => step a (by
          rw [leaves_list]; exact List.mem_flatMap.mpr ⟨x, hx, ha⟩)) hI₂.1 hy
        exact ⟨⟨h₁, fun b hb => h₃ b (hI₂.2 b hb)⟩, h₂, fun z hz b hb => h₃ b (hz b hb)⟩)
      ⟨hI, fun _ hb => hb⟩ hxs
    refine ⟨h.1.1, ?_, h.1.2⟩
    intro b hb
    rw [leaves_list] at hb
    obtain ⟨y, hy, hb⟩ := List.mem_flatMap.mp hb
    exact h.2.1 y hy b hb
  | dict kvs ih =>
    rw [bindM_dict] at hrun
    obtain ⟨items, s₁, hkvs, hrun⟩ := bind_eq_ok.mp hrun
    cases hrun
    have h := mapM_post (f := bindItemM f) (I := fun s₂ => I s₂ ∧ ∀ b, Q s b → Q s₂ b)
      (Q := fun s₂ kv => ∀ b ∈ kv.2.leaves, Q s₂ b) kvs (fun kv hkv s₂ item s₃ hI₂ hrun => by
        obtain ⟨y, s₄, hy, hrun⟩ := bind_eq_ok.mp hrun
        cases hrun
        obtain ⟨h₁, h₂, h₃⟩ := ih kv hkv (fun a ha => step a (by
          rw [leaves_dict]; exact List.mem_flatMap.mpr ⟨kv, hkv, ha⟩)) hI₂.1 hy
        exact ⟨⟨h₁, fun b hb => h₃ b (hI₂.2 b hb)⟩, h₂, fun z hz b hb => h₃ b (hz b hb)⟩)
      ⟨hI, fun _ hb => hb⟩ hkvs
    refine ⟨h.1.1, ?_, h.1.2⟩
    intro b hb
    rw [leaves_dict] at hb
    obtain ⟨kv, hkv, hb⟩ := List.mem_flatMap.mp hb
    exact h.2.1 kv hkv b hb

/-- A traversal keeps the keys of every mapping and adds the mappings of what its leaves become. -/
theorem bindM_everyDict {P : List String → Prop} (t : Tree α)
    (step : ∀ a ∈ t.leaves, ∀ s y s', f a s = .ok y s' →
      y.EveryDict fun kvs => P (kvs.map Prod.fst))
    (ht : t.EveryDict fun kvs => P (kvs.map Prod.fst))
    {s s' : S} {y : Tree β} (hrun : bindM f t s = .ok y s') :
    y.EveryDict fun kvs => P (kvs.map Prod.fst) := by
  induction t generalizing s s' y with
  | leaf a => exact step a (by simp) s y s' hrun
  | list xs ih =>
    rw [everyDict_list] at ht
    rw [bindM_list] at hrun
    obtain ⟨ys, s₁, hxs, hrun⟩ := bind_eq_ok.mp hrun
    cases hrun
    rw [everyDict_list]
    have h := mapM_post (I := fun _ => True)
      (Q := fun _ (y : Tree β) => y.EveryDict fun kvs => P (kvs.map Prod.fst)) xs
      (fun x hx s y s' _ hy => ⟨trivial, ih x hx (fun a ha => step a (by
        rw [leaves_list]; exact List.mem_flatMap.mpr ⟨x, hx, ha⟩)) (ht x hx) hy, fun _ h => h⟩)
      trivial hxs
    exact h.2.1
  | dict kvs ih =>
    rw [everyDict_dict] at ht
    rw [bindM_dict] at hrun
    obtain ⟨items, s₁, hkvs, hrun⟩ := bind_eq_ok.mp hrun
    cases hrun
    have hkeys := mapM_trace (T := fun ks ks' _ _ => ks = ks') (g := fun kv => [kv.1])
      (h := fun item => [item.1]) (fun _ => rfl) (fun _ _ _ _ _ _ _ h h' => by rw [h, h']) kvs
      (fun kv _ s item s' hitem => by
        obtain ⟨z, s₂, -, hitem⟩ := bind_eq_ok.mp hitem
        cases hitem
        rfl) hkvs
    rw [← List.map_eq_flatMap, ← List.map_eq_flatMap] at hkeys
    rw [everyDict_dict, ← hkeys]
    have h := mapM_post (f := bindItemM f) (I := fun _ => True)
      (Q := fun _ (item : String × Tree β) => item.2.EveryDict fun kvs => P (kvs.map Prod.fst)) kvs
      (fun kv hkv s item s' _ hitem => by
        obtain ⟨z, s₂, hz, hitem⟩ := bind_eq_ok.mp hitem
        cases hitem
        exact ⟨trivial, ih kv hkv (fun a ha => step a (by
          rw [leaves_dict]; exact List.mem_flatMap.mpr ⟨kv, hkv, ha⟩)) (ht.2 kv hkv) hz,
          fun _ h => h⟩) trivial hkvs
    exact ⟨ht.1, h.2.1⟩

/-- Every leaf of a traversal that returns has been replaced by a subtree of the result. -/
theorem bindM_each {t : Tree α} {s s' : S} {y : Tree β} (hrun : bindM f t s = .ok y s') {a : α}
    (ha : a ∈ t.leaves) : ∃ s₁ z s₂, f a s₁ = .ok z s₂ ∧ ∀ b ∈ z.leaves, b ∈ y.leaves := by
  induction t generalizing s s' y with
  | leaf a' =>
    rw [leaves_leaf, List.mem_singleton] at ha
    subst ha
    exact ⟨s, y, s', hrun, fun _ hb => hb⟩
  | list xs ih =>
    rw [leaves_list] at ha
    obtain ⟨x, hx, ha⟩ := List.mem_flatMap.mp ha
    rw [bindM_list] at hrun
    obtain ⟨ys, s₁, hxs, hrun⟩ := bind_eq_ok.mp hrun
    cases hrun
    obtain ⟨s₂, z, s₃, hz, hmem⟩ := mapM_each hxs hx
    obtain ⟨s₄, c, s₅, hc, hsub⟩ := ih x hx hz ha
    refine ⟨s₄, c, s₅, hc, fun b hb => ?_⟩
    rw [leaves_list]
    exact List.mem_flatMap.mpr ⟨z, hmem, hsub b hb⟩
  | dict kvs ih =>
    rw [leaves_dict] at ha
    obtain ⟨kv, hkv, ha⟩ := List.mem_flatMap.mp ha
    rw [bindM_dict] at hrun
    obtain ⟨items, s₁, hitems, hrun⟩ := bind_eq_ok.mp hrun
    cases hrun
    obtain ⟨s₂, item, s₃, hitem, hmem⟩ := mapM_each hitems hkv
    obtain ⟨z, s₄, hz, hitem⟩ := bind_eq_ok.mp hitem
    cases hitem
    obtain ⟨s₅, c, s₆, hc, hsub⟩ := ih kv hkv hz ha
    refine ⟨s₅, c, s₆, hc, fun b hb => ?_⟩
    rw [leaves_dict]
    exact List.mem_flatMap.mpr ⟨_, hmem, hsub b hb⟩

/-- What each leaf becomes and does to the state, concatenated over a traversal that returns. -/
theorem bindM_trace {T : List α → List β → S → S → Prop} (nil : ∀ s, T [] [] s s)
    (append : ∀ as bs as' bs' s₁ s₂ s₃, T as as' s₁ s₂ → T bs bs' s₂ s₃ →
      T (as ++ bs) (as' ++ bs') s₁ s₃) (t : Tree α)
    (step : ∀ a s y s', f a s = .ok y s' → T [a] y.leaves s s') {s s' : S} {y : Tree β}
    (hrun : bindM f t s = .ok y s') : T t.leaves y.leaves s s' := by
  induction t generalizing s s' y with
  | leaf a => exact step a s y s' hrun
  | list xs ih =>
    rw [bindM_list] at hrun
    obtain ⟨ys, s₁, hxs, hrun⟩ := bind_eq_ok.mp hrun
    cases hrun
    rw [leaves_list, leaves_list]
    exact mapM_trace nil append xs (fun x hx s y s' h => ih x hx h) hxs
  | dict kvs ih =>
    rw [bindM_dict] at hrun
    obtain ⟨items, s₁, hitems, hrun⟩ := bind_eq_ok.mp hrun
    cases hrun
    rw [leaves_dict, leaves_dict]
    refine mapM_trace nil append kvs (fun kv hkv s item s' h => ?_) hitems
    obtain ⟨z, s₂, hz, hitem⟩ := bind_eq_ok.mp h
    cases hitem
    exact ih kv hkv hz

/-- A traversal run from a related state builds the same tree, when its leaves do. -/
theorem bindM_simulate {S' : Type} {R : S → S' → Prop} {g : α → EStateM ε S' (Tree β)}
    (t : Tree α)
    (step : ∀ a ∈ t.leaves, ∀ s y s₁ s', R s s' → f a s = .ok y s₁ →
      ∃ s₁', g a s' = .ok y s₁' ∧ R s₁ s₁')
    {s s₁ : S} {v : S'} {y : Tree β} (hrel : R s v) (hrun : bindM f t s = .ok y s₁) :
    ∃ s₁', bindM g t v = .ok y s₁' ∧ R s₁ s₁' := by
  induction t generalizing s v s₁ y with
  | leaf a => exact step a (by simp) s y s₁ v hrel hrun
  | list xs ih =>
    rw [bindM_list] at hrun
    obtain ⟨ys, s₂, hxs, hrun⟩ := bind_eq_ok.mp hrun
    cases hrun
    obtain ⟨s₂', hxs', hrel₂⟩ := mapM_simulate (g := bindM g) xs
      (fun x hx s y s₁ s' hrel h => ih x hx (fun a ha => step a (by
        rw [leaves_list]; exact List.mem_flatMap.mpr ⟨x, hx, ha⟩)) hrel h) hrel hxs
    exact ⟨s₂', by rw [bindM_list, bind_ok hxs']; rfl, hrel₂⟩
  | dict kvs ih =>
    rw [bindM_dict] at hrun
    obtain ⟨items, s₂, hkvs, hrun⟩ := bind_eq_ok.mp hrun
    cases hrun
    obtain ⟨s₂', hkvs', hrel₂⟩ := mapM_simulate (g := bindItemM g) kvs
      (fun kv hkv s item s₁ s' hrel h => by
        obtain ⟨z, s₃, hz, hitem⟩ := bind_eq_ok.mp h
        cases hitem
        obtain ⟨s₃', hz', hrel₃⟩ := ih kv hkv (fun a ha => step a (by
          rw [leaves_dict]; exact List.mem_flatMap.mpr ⟨kv, hkv, ha⟩)) hrel hz
        exact ⟨s₃', by rw [bindItemM, bind_ok hz']; rfl, hrel₃⟩) hrel hkvs
    exact ⟨s₂', by rw [bindM_dict, bind_ok hkvs']; rfl, hrel₂⟩

/-- The leaves of `y` are settled in state `s`, and observing them there turns `y` into `c`. -/
def Settled (K : S → β → Prop) (obs : S → β → γ) (s : S) (y : Tree β) (c : Tree γ) : Prop :=
  (∀ b ∈ y.leaves, K s b) ∧ y.map (obs s) = c

theorem settled_leaf {K : S → β → Prop} {obs : S → β → γ} {s : S} {b : β} {c : γ} (hK : K s b)
    (hobs : obs s b = c) : Settled K obs s (.leaf b) (.leaf c) := by
  refine ⟨?_, congrArg leaf hobs⟩
  intro b' hb
  rw [leaves_leaf, List.mem_singleton] at hb
  rwa [hb]

theorem settled_list {K : S → β → Prop} {obs : S → β → γ} {s : S} {ys : List (Tree β)}
    {cs : List (Tree γ)} (h : List.Forall₂ (Settled K obs s) ys cs) :
    Settled K obs s (.list ys) (.list cs) := by
  constructor
  · intro b hb
    rw [leaves_list] at hb
    obtain ⟨y, hy, hb⟩ := List.mem_flatMap.mp hb
    obtain ⟨c, _, hc⟩ := forall₂_mem_left h hy
    exact hc.1 b hb
  · rw [map, subst_list]
    congr 1
    exact List.forall₂_eq_eq_eq ▸ List.forall₂_map_left_iff.mpr (h.imp fun _ _ hc => hc.2)

theorem settled_dict {K : S → β → Prop} {obs : S → β → γ} {s : S}
    {items : List (String × Tree β)} {cs : List (String × Tree γ)}
    (h : List.Forall₂ (fun kv c => kv.1 = c.1 ∧ Settled K obs s kv.2 c.2) items cs) :
    Settled K obs s (.dict items) (.dict cs) := by
  constructor
  · intro b hb
    rw [leaves_dict] at hb
    obtain ⟨kv, hkv, hb⟩ := List.mem_flatMap.mp hb
    obtain ⟨c, _, hc⟩ := forall₂_mem_left h hkv
    exact hc.2.1 b hb
  · rw [map, subst_dict]
    congr 1
    exact List.forall₂_eq_eq_eq ▸ List.forall₂_map_left_iff.mpr
      (h.imp fun _ _ hc => Prod.ext hc.1 hc.2.2)

theorem Settled.keep {K : S → β → Prop} {obs : S → β → γ} {s s' : S} {y : Tree β} {c : Tree γ}
    (h : Settled K obs s y c) (hkeep : ∀ b, K s b → K s' b ∧ obs s' b = obs s b) :
    Settled K obs s' y c := by
  refine ⟨fun b hb => (hkeep b (h.1 b hb)).1, ?_⟩
  rw [← h.2]
  exact map_congr y fun b hb => (hkeep b (h.1 b hb)).2

/-- A traversal all of whose leaves return: the tree it builds, observed in the final state, is the
input with every leaf replaced by what was to be observed there. `K s b` says that the leaf `b` is
settled in state `s`, so that later leaves no longer change what is observed of it. -/
theorem bindM_observe {I : S → Prop} (K : S → β → Prop) (obs : S → β → γ) {g : α → Tree γ}
    (t : Tree α)
    (step : ∀ a ∈ t.leaves, ∀ s, I s → ∃ y s', f a s = .ok y s' ∧ I s' ∧
      Settled K obs s' y (g a) ∧ ∀ b, K s b → K s' b ∧ obs s' b = obs s b)
    {s : S} (hI : I s) :
    ∃ y s', bindM f t s = .ok y s' ∧ I s' ∧ Settled K obs s' y (t.subst g) ∧
      ∀ b, K s b → K s' b ∧ obs s' b = obs s b := by
  induction t generalizing s with
  | leaf a => exact step a (by simp) s hI
  | list xs ih =>
    obtain ⟨ys, s', hrun, hI', hys, -⟩ := mapM_total
      (I := fun s₁ => I s₁ ∧ ∀ b, K s b → K s₁ b ∧ obs s₁ b = obs s b)
      (P := Settled K obs) (g := subst g) xs
      (fun x hx s₁ hI₁ => by
        obtain ⟨y, s₂, h₁, h₂, h₃, h₄⟩ := ih x hx (fun a ha => step a (by
          rw [leaves_list]; exact List.mem_flatMap.mpr ⟨x, hx, ha⟩)) hI₁.1
        refine ⟨y, s₂, h₁, ⟨h₂, fun b hb => ?_⟩, h₃, fun z c hz => hz.keep h₄⟩
        obtain ⟨hK, ho⟩ := hI₁.2 b hb
        exact ⟨(h₄ b hK).1, (h₄ b hK).2.trans ho⟩) ⟨hI, fun b hb => ⟨hb, rfl⟩⟩
    refine ⟨.list ys, s', by rw [bindM_list, bind_ok hrun, pure_run], hI'.1, ?_, hI'.2⟩
    rw [subst_list]
    exact settled_list hys
  | dict kvs ih =>
    obtain ⟨items, s', hrun, hI', hitems, -⟩ := mapM_total (f := bindItemM f)
      (I := fun s₁ => I s₁ ∧ ∀ b, K s b → K s₁ b ∧ obs s₁ b = obs s b)
      (P := fun s₁ kv c => kv.1 = c.1 ∧ Settled K obs s₁ kv.2 c.2)
      (g := fun kv => (kv.1, kv.2.subst g)) kvs
      (fun kv hkv s₁ hI₁ => by
        obtain ⟨y, s₂, h₁, h₂, h₃, h₄⟩ := ih kv hkv (fun a ha => step a (by
          rw [leaves_dict]; exact List.mem_flatMap.mpr ⟨kv, hkv, ha⟩)) hI₁.1
        refine ⟨(kv.1, y), s₂, by rw [bindItemM, bind_ok h₁, pure_run], ⟨h₂, fun b hb => ?_⟩,
          ⟨rfl, h₃⟩, fun z c hz => ⟨hz.1, hz.2.keep h₄⟩⟩
        obtain ⟨hK, ho⟩ := hI₁.2 b hb
        exact ⟨(h₄ b hK).1, (h₄ b hK).2.trans ho⟩) ⟨hI, fun b hb => ⟨hb, rfl⟩⟩
    refine ⟨.dict items, s', by rw [bindM_dict, bind_ok hrun, pure_run], hI'.1, ?_, hI'.2⟩
    rw [subst_dict]
    exact settled_dict hitems

end Rules

/-- The checks of a traversal are those of its leaves, in document order. -/
theorem describes_bindM {ε : Type} {reported : ε → Prop} {f : α → Except ε (Tree β)}
    {checks : α → List Check} (t : Tree α) (h : ∀ a, Describes reported (checks a) (f a)) :
    Describes reported (t.leaves.flatMap checks) (bindM f t) := by
  induction t with
  | leaf a => simpa using h a
  | list xs ih =>
    rw [bindM_list, leaves_list, List.flatMap_assoc]
    exact (Describes.mapM xs ih).map list
  | dict kvs ih =>
    rw [bindM_dict, leaves_dict, List.flatMap_assoc]
    exact (Describes.mapM kvs fun kv hkv => (ih kv hkv).map fun y => (kv.1, y)).map dict

end Tree
end Npb
