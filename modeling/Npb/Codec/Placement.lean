import Npb.Codec.Encode
import Npb.Codec.Decode

/-! # Placed trees and references

Between a dumped tree and its manifest stands the tree in which every array leaf has been given its
place: an offset in the DATA section, or a blob reference. `_manifest_tree` places the leaves and
renders the result (`manifestTree_eq`). `_restore_tree` reads a manifest as a tree of references
and restores them one after the other (`restoreTree_eq`). The references of a rendering are the
places that were rendered, provided no mapping of the tree reads as one (`references_render`). -/

namespace Npb
set_option autoImplicit false
open Effects Numpy

variable {σ : Type}

inductive Placed where
  | scalar (s : Scalar)
  | inline (relOffset : ℕ) (a : NdArray)
  | external (ref : BlobRef)

def Placed.render : Placed → Json
  | .scalar s => .leaf s
  | .inline relOffset a => binManifest relOffset a
  | .external ref => blobManifest ref

/-! ## Placing -/

section Place
variable (blobStore : Option (BlobStore σ)) (externalizeMinBytes : Option ℤ)

def placeLeaf : Leaf → EStateM PyError (Scan σ) (Tree Placed)
  | .ndarray node => do
    fromExcept (validateNdarray node)
    match externalStore blobStore externalizeMinBytes node with
    | some store =>
      let ref ← inWorld (store.putArray node)
      return .leaf (.external ref)
    | none =>
      let s ← get
      let relOffset := alignUp s.cursor arrayAlignment
      set { s with
        arrays := s.arrays ++ [(relOffset, node)]
        cursor := relOffset + node.nbytes }
      return .leaf (.inline relOffset node)
  | .blobRef ref => return .leaf (.external ref)
  | .scalar s => return .leaf (.scalar s)

def placeTree (t : Tree Leaf) : EStateM PyError (Scan σ) (Tree Placed) :=
  Tree.bindM (placeLeaf blobStore externalizeMinBytes) t

theorem manifestLeaf_eq (l : Leaf) :
    manifestLeaf blobStore externalizeMinBytes l =
      Tree.subst Placed.render <$> placeLeaf blobStore externalizeMinBytes l := by
  cases l with
  | scalar s => rfl
  | blobRef ref => rfl
  | ndarray node =>
    rw [manifestLeaf, placeLeaf]
    cases externalStore blobStore externalizeMinBytes node <;>
      simp only [map_eq_pure_bind, bind_assoc, pure_bind, Tree.subst_leaf, Placed.render]

mutual
theorem manifestTree_listed : ∀ v : Value, manifestTree blobStore externalizeMinBytes v =
    Tree.bindM (manifestLeaf blobStore externalizeMinBytes) v.listed
  | .leaf l => rfl
  | .list xs => by
    rw [manifestTree, Value.listed, Tree.bindM, manifestList_listed xs]
  | .tuple xs => by
    rw [manifestTree, Value.listed, Tree.bindM, manifestList_listed xs]
  | .dict kvs => by
    rw [manifestTree, Value.listed, Tree.bindM, manifestItems_listed kvs]

theorem manifestList_listed : ∀ xs : List Value,
    manifestList blobStore externalizeMinBytes xs =
      Tree.bindListM (manifestLeaf blobStore externalizeMinBytes) (Value.listedAll xs)
  | [] => rfl
  | x :: xs => by
    rw [manifestList, Value.listedAll, Tree.bindListM, manifestTree_listed x,
      manifestList_listed xs]

theorem manifestItems_listed : ∀ kvs : List (String × Value),
    manifestItems blobStore externalizeMinBytes kvs =
      Tree.bindItemsM (manifestLeaf blobStore externalizeMinBytes) (Value.listedItems kvs)
  | [] => rfl
  | (k, v) :: kvs => by
    rw [manifestItems, Value.listedItems, Tree.bindItemsM, manifestTree_listed v,
      manifestItems_listed kvs]
end

/-- `_manifest_tree` places the leaves and renders the placed tree. -/
theorem manifestTree_eq (v : Value) :
    manifestTree blobStore externalizeMinBytes v =
      Tree.subst Placed.render <$> placeTree blobStore externalizeMinBytes v.listed := by
  rw [manifestTree_listed, placeTree, Tree.map_bindM]
  congr 1
  funext l
  exact manifestLeaf_eq blobStore externalizeMinBytes l

end Place

/-! ## Reading a manifest -/

/-- A leaf of a manifest as `_restore_tree` reads it. -/
inductive Reference where
  | scalar (s : Scalar)
  | bin (ref : List (String × Json))
  | blob (value : Json)

mutual
/-- The manifest with every mapping that reads as a reference made a leaf. -/
def references : Json → Tree Reference
  | .leaf s => .leaf (.scalar s)
  | .list xs => .list (referencesList xs)
  | .dict kvs =>
    match Tree.soleValue "$blob" kvs with
    | some value => .leaf (.blob value)
    | none =>
      match binReference kvs with
      | some ref => .leaf (.bin ref)
      | none => .dict (referencesItems kvs)

def referencesList : List Json → List (Tree Reference)
  | [] => []
  | x :: xs => references x :: referencesList xs

def referencesItems : List (String × Json) → List (String × Tree Reference)
  | [] => []
  | (k, v) :: kvs => (k, references v) :: referencesItems kvs
end

section Restore
variable (R : Runtime) (binary : Buffer) (dataStart dataBytes : ℕ)
  (blobStore : Option (BlobStore σ))

def restoreReference : Reference → Py σ (Tree Leaf)
  | .scalar s => return .leaf (.scalar s)
  | .bin ref => do
    let a ← fromExcept (restoreBin R binary dataStart dataBytes ref)
    return .leaf (.ndarray a)
  | .blob value => do
    let l ← restoreBlob R blobStore value
    return .leaf l

mutual
/-- `_restore_tree` restores the references of the manifest in document order. -/
theorem restoreTree_eq : ∀ j : Json, restoreTree R binary dataStart dataBytes blobStore j =
    Tree.bindM (restoreReference R binary dataStart dataBytes blobStore) (references j)
  | .leaf s => rfl
  | .list xs => by rw [restoreTree, references, Tree.bindM, restoreList_eq xs]
  | .dict kvs => by
    rw [restoreTree, references]
    cases Tree.soleValue "$blob" kvs with
    | some value => rfl
    | none =>
      cases binReference kvs with
      | some ref => rfl
      | none =>
        dsimp only
        rw [Tree.bindM, restoreItems_eq kvs]

theorem restoreList_eq : ∀ xs : List Json,
    restoreList R binary dataStart dataBytes blobStore xs =
      Tree.bindListM (restoreReference R binary dataStart dataBytes blobStore) (referencesList xs)
  | [] => rfl
  | x :: xs => by
    rw [restoreList, referencesList, Tree.bindListM, restoreTree_eq x, restoreList_eq xs]

theorem restoreItems_eq : ∀ kvs : List (String × Json),
    restoreItems R binary dataStart dataBytes blobStore kvs =
      Tree.bindItemsM (restoreReference R binary dataStart dataBytes blobStore)
        (referencesItems kvs)
  | [] => rfl
  | (k, v) :: kvs => by
    rw [restoreItems, referencesItems, Tree.bindItemsM, restoreTree_eq v, restoreItems_eq kvs]
end

end Restore

theorem topLevel_eq_ok {t : Tree Leaf} {kvs : List (String × Tree Leaf)} :
    topLevel t = .ok kvs ↔ t = .dict kvs := by
  cases t <;> simp [topLevel]

theorem restoreBlob_ok {R : Runtime} {blobStore : Option (BlobStore σ)} {value : Json}
    {w w' : World σ} {l : Leaf} (h : restoreBlob R blobStore value w = .ok l w') :
    ∃ ref, BlobRef.fromManifest R value = .ok ref ∧
      ((blobStore = none ∧ l = .blobRef ref ∧ w' = w) ∨
        ∃ store a, blobStore = some store ∧ store.kind = ref.store ∧
          store.getArray ref w = .ok a w' ∧ l = .ndarray a) := by
  rw [restoreBlob, bind_eq_ok] at h
  obtain ⟨ref, w₁, href₀, h⟩ := h
  obtain ⟨href, rfl⟩ := fromExcept_eq_ok.mp href₀
  refine ⟨ref, catching_eq_ok.mp href, ?_⟩
  cases blobStore with
  | none =>
    cases h
    exact .inl ⟨rfl, rfl, rfl⟩
  | some store =>
    dsimp only at h
    rw [bind_eq_ok] at h
    obtain ⟨u, w₂, hkind₀, h⟩ := h
    obtain ⟨hkind, rfl⟩ := fromExcept_eq_ok.mp hkind₀
    rw [bind_eq_ok] at h
    obtain ⟨a, w₃, hget, h⟩ := h
    cases h
    exact .inr ⟨store, a, rfl, not_not.mp (raiseIf_eq_ok.mp hkind), hget, rfl⟩

/-! ## The references of a rendering -/

/-- The mapping is none that `_restore_tree` takes for a reference. -/
def NotReference (kvs : List (String × Json)) : Prop :=
  Tree.soleValue "$blob" kvs = none ∧ binReference kvs = none

theorem referencesList_eq (xs : List Json) : referencesList xs = xs.map references := by
  induction xs with
  | nil => rfl
  | cons x xs ih => rw [referencesList, ih, List.map_cons]

theorem referencesItems_eq (kvs : List (String × Json)) :
    referencesItems kvs = kvs.map fun kv => (kv.1, references kv.2) := by
  induction kvs with
  | nil => rfl
  | cons kv kvs ih => rw [referencesItems, ih, List.map_cons]

theorem references_list (xs : List Json) : references (.list xs) = .list (xs.map references) := by
  rw [references, referencesList_eq]

theorem references_dict {kvs : List (String × Json)} (h : NotReference kvs) :
    references (.dict kvs) = .dict (kvs.map fun kv => (kv.1, references kv.2)) := by
  rw [references, h.1, h.2, referencesItems_eq]

/-- The fields of an inline reference. -/
def binFields (relOffset : ℕ) (node : NdArray) : List (String × Json) := [
  ("kind", .leaf (.str "ndarray")),
  ("offset", .leaf (.int relOffset)),
  ("nbytes", .leaf (.int node.nbytes)),
  ("dtype", .leaf (.str node.dtype.str)),
  ("shape", .list (node.shape.map fun d : ℕ => .leaf (.int d)))]

def Placed.reference : Placed → Reference
  | .scalar s => .scalar s
  | .inline relOffset a => .bin (binFields relOffset a)
  | .external ref => .blob ref.toManifest

theorem references_binManifest (relOffset : ℕ) (a : NdArray) :
    references (binManifest relOffset a) = .leaf (.bin (binFields relOffset a)) := by
  have hbin : binReference [("$bin", .dict (binFields relOffset a))] =
      some (binFields relOffset a) := by
    simp [binReference, Tree.soleValue, binFields]
  have hblob : Tree.soleValue "$blob" [("$bin", (.dict (binFields relOffset a) : Json))] = none := by
    simp [Tree.soleValue]
  change references (.dict [("$bin", .dict (binFields relOffset a))]) = _
  rw [references, hblob, hbin]

theorem references_blobManifest (ref : BlobRef) :
    references (blobManifest ref) = .leaf (.blob ref.toManifest) := by
  have hblob : Tree.soleValue "$blob" [("$blob", ref.toManifest)] = some ref.toManifest := by
    simp [Tree.soleValue]
  rw [blobManifest, references, hblob]

theorem references_render (t : Tree Placed)
    (h : t.EveryDict fun kvs => NotReference (kvs.map fun kv => (kv.1, kv.2.subst Placed.render))) :
    references (t.subst Placed.render) = t.map Placed.reference := by
  induction t with
  | leaf p =>
    cases p with
    | scalar s => rfl
    | inline relOffset a => exact references_binManifest relOffset a
    | external ref => exact references_blobManifest ref
  | list xs ih =>
    rw [Tree.everyDict_list] at h
    rw [Tree.subst_list, references_list, Tree.map, Tree.subst_list, List.map_map]
    congr 1
    exact List.map_congr_left fun x hx => ih x hx (h x hx)
  | dict kvs ih =>
    rw [Tree.everyDict_dict] at h
    rw [Tree.subst_dict, references_dict h.1, Tree.map, Tree.subst_dict, List.map_map]
    congr 1
    exact List.map_congr_left fun kv hkv => congrArg (Prod.mk kv.1) (ih kv hkv (h.2 kv hkv))

section Restore
variable (R : Runtime) (binary : Buffer) (dataStart dataBytes : ℕ)
  (blobStore : Option (BlobStore σ))

def restorePlaced (p : Placed) : Py σ (Tree Leaf) :=
  restoreReference R binary dataStart dataBytes blobStore p.reference

/-- Restoring the rendering of a placed tree restores its places. -/
theorem restoreTree_render (t : Tree Placed)
    (h : t.EveryDict fun kvs => NotReference (kvs.map fun kv => (kv.1, kv.2.subst Placed.render))) :
    restoreTree R binary dataStart dataBytes blobStore (t.subst Placed.render) =
      Tree.bindM (restorePlaced R binary dataStart dataBytes blobStore) t := by
  rw [restoreTree_eq, references_render t h, Tree.bindM_map]
  rfl

end Restore
end Npb
