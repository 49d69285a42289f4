import Npb.Codec.StoreLaws

/-! # JSON forms

`to_json` and `from_json` turn a scalar into the JSON value that stands for it. What a container
holds depends on the model only up to these forms: two trees that look alike once every scalar is
replaced by its form, and every array by its content, are laid out alike (`placeTree_form`) and
become the same bytes (`containerBytes_form`). -/

namespace Npb
set_option autoImplicit false
open Effects Numpy

variable {σ : Type}

/-- The value JSON has for each scalar: integers and strings are their own, and a value that has
been through JSON stays as it is. -/
structure JsonForm where
  form : Scalar → Json
  int : ∀ i, form (.int i) = .leaf (.int i)
  str : ∀ s, form (.str s) = .leaf (.str s)
  plain : ∀ s, NoMarkers (form s)
  again : ∀ s, (form s).subst form = form s

/-- Every scalar is its own form. -/
def JsonForm.same : JsonForm where
  form := .leaf
  int _ := rfl
  str _ := rfl
  plain _ := trivial
  again _ := rfl

section Forms
variable (J : JsonForm)

def JsonForm.normal (j : Json) : Json := j.subst J.form

theorem normal_same (j : Json) : JsonForm.same.normal j = j := Tree.map_id j

theorem normal_ints (shape : List ℤ) :
    J.normal (.list (shape.map fun d => .leaf (.int d))) =
      .list (shape.map fun d => .leaf (.int d)) := by
  rw [JsonForm.normal, Tree.subst_list, List.map_map]
  congr 1
  exact List.map_congr_left fun d _ => J.int d

/-- The inline reference of an array with this content. -/
def contentManifest (relOffset : ℕ) (c : NdArray.Content) : Json :=
  .dict [("$bin", .dict [
    ("kind", .leaf (.str "ndarray")),
    ("offset", .leaf (.int relOffset)),
    ("nbytes", .leaf (.int c.bytes.length)),
    ("dtype", .leaf (.str c.dtype.str)),
    ("shape", .list (c.shape.map fun d : ℕ => .leaf (.int d)))])]

theorem binManifest_content (m : Mem) (relOffset : ℕ) (a : NdArray) :
    binManifest relOffset a = contentManifest relOffset (a.content m) := by
  rw [contentManifest, NdArray.content, NdArray.tobytes_length]
  rfl

theorem normal_binManifest (relOffset : ℕ) (a : NdArray) :
    J.normal (binManifest relOffset a) = binManifest relOffset a := by
  have hshape := normal_ints J (a.shape.map fun d : ℕ => (d : ℤ))
  rw [List.map_map] at hshape
  unfold JsonForm.normal at hshape ⊢
  unfold binManifest
  simp only [Tree.subst_dict, List.map_cons, List.map_nil, Tree.subst_leaf, J.int, J.str]
  exact congrArg (fun x => Tree.dict [("$bin", .dict [("kind", .leaf (.str "ndarray")),
    ("offset", .leaf (.int relOffset)), ("nbytes", .leaf (.int a.nbytes)),
    ("dtype", .leaf (.str a.dtype.str)), ("shape", x)])]) hshape

theorem normal_blobManifest (ref : BlobRef) :
    J.normal (blobManifest ref) = blobManifest ref := by
  have hshape := normal_ints J ref.shape
  unfold JsonForm.normal at hshape ⊢
  unfold blobManifest BlobRef.toManifest
  simp only [Tree.subst_dict, List.map_cons, List.map_nil, Tree.subst_leaf, J.int, J.str]
  exact congrArg (fun x => Tree.dict [("$blob", .dict [("store", .leaf (.str ref.store)),
    ("id", .leaf (.str ref.objectId)), ("offset", .leaf (.int ref.offset)),
    ("nbytes", .leaf (.int ref.nbytes)), ("dtype", .leaf (.str ref.dtype)), ("shape", x)])]) hshape

/-- What a leaf comes to in the container: the form of a scalar, the content of an array. -/
def Leaf.form (m : Mem) : Leaf → Tree LeafValue
  | .scalar s => (J.form s).map .scalar
  | .ndarray a => .leaf (.array (a.content m))
  | .blobRef ref => .leaf (.blobRef ref)

def formOf (m : Mem) (t : Tree Leaf) : Tree LeafValue := t.subst (Leaf.form J m)

variable {J}

theorem mem_formOf_array {m : Mem} {t : Tree Leaf} {c : NdArray.Content} :
    LeafValue.array c ∈ (formOf J m t).leaves ↔ ∃ a ∈ arraysOf t, a.content m = c := by
  rw [formOf, Tree.leaves_subst, List.mem_flatMap]
  constructor
  · intro h
    obtain ⟨l, hl, hc⟩ := h
    cases l with
    | scalar s =>
      rw [Leaf.form, Tree.leaves_map] at hc
      obtain ⟨s', -, hs'⟩ := List.mem_map.mp hc
      cases hs'
    | blobRef ref => simp [Leaf.form] at hc
    | ndarray a =>
      simp only [Leaf.form, Tree.leaves_leaf, List.mem_singleton, LeafValue.array.injEq] at hc
      exact ⟨a, mem_arraysOf.mpr hl, hc.symm⟩
  · intro h
    obtain ⟨a, ha, hc⟩ := h
    refine ⟨.ndarray a, mem_arraysOf.mp ha, ?_⟩
    simp [Leaf.form, hc]

theorem validate_of_form {m m' : Mem} {t t' : Tree Leaf} (h : formOf J m' t' = formOf J m t)
    (hvalid : ∀ a ∈ arraysOf t, validateNdarray a = .ok ()) :
    ∀ a ∈ arraysOf t', validateNdarray a = .ok () := by
  intro a ha
  have hmem : LeafValue.array (a.content m') ∈ (formOf J m' t').leaves :=
    mem_formOf_array.mpr ⟨a, ha, rfl⟩
  rw [h] at hmem
  obtain ⟨b, hb, hcontent⟩ := mem_formOf_array.mp hmem
  have hdtype : b.dtype = a.dtype := congrArg NdArray.Content.dtype hcontent
  have hb' := hvalid b hb
  rw [validateNdarray_eq_ok] at hb' ⊢
  rwa [hdtype] at hb'

/-! ## Laying out forms -/

/-- The lists of the traversal, with contents in the place of arrays. -/
structure FormScan where
  arrays : List (ℕ × NdArray.Content)
  cursor : ℕ

def Scan.forms (m : Mem) (s : Scan σ) : FormScan :=
  ⟨s.arrays.map fun x => (x.1, x.2.content m), s.cursor⟩

/-- What `_manifest_tree` makes of a leaf, as far as its form goes. -/
def layLeaf : LeafValue → EStateM PyError FormScan Json
  | .scalar s => return .leaf s
  | .array c => do
    let s ← get
    let relOffset := alignUp s.cursor arrayAlignment
    set (⟨s.arrays ++ [(relOffset, c)], relOffset + c.bytes.length⟩ : FormScan)
    return contentManifest relOffset c
  | .blobRef ref => return blobManifest ref

theorem layLeaf_array (c : NdArray.Content) (s : FormScan) :
    layLeaf (.array c) s = .ok (contentManifest (alignUp s.cursor arrayAlignment) c)
      ⟨s.arrays ++ [(alignUp s.cursor arrayAlignment, c)],
        alignUp s.cursor arrayAlignment + c.bytes.length⟩ := rfl

theorem placeLeaf_form (J : JsonForm) (m : Mem) {l : Leaf} {s s₁ : Scan σ} {y : Tree Placed}
    (h : placeLeaf none none l s = .ok y s₁) :
    Tree.bindM layLeaf (l.form J m) (s.forms m) =
      .ok (J.normal (y.subst Placed.render)) (s₁.forms m) := by
  rcases placeLeaf_ok h with ⟨v, rfl, rfl, rfl⟩ | ⟨ref, rfl, rfl, rfl⟩ |
    ⟨a, store, ref, w, rfl, -, hstore, -⟩ | ⟨a, rfl, -, -, rfl, rfl⟩
  · rw [Leaf.form, Tree.bindM_map]
    refine (Tree.bindM_pure (g := Tree.leaf) (J.form v) fun b _ => rfl).trans ?_
    rw [← Tree.map, Tree.map_id]
    rfl
  · rw [Tree.subst_leaf, Placed.render, normal_blobManifest]
    rfl
  · cases hstore
  · rw [Tree.subst_leaf, Placed.render, normal_binManifest, binManifest_content m]
    refine (layLeaf_array (a.content m) (s.forms m)).trans ?_
    have hlen : (a.content m).bytes.length = a.nbytes := NdArray.tobytes_length ..
    rw [Scan.forms, Scan.forms, List.map_append, hlen]
    rfl

/-- Offsets, cursor and the form of the manifest follow from the form of the tree. -/
theorem placeTree_form (J : JsonForm) (m : Mem) {t : Tree Leaf} {w : World σ} {pt : Tree Placed}
    {s : Scan σ} (h : placeTree none none t ⟨w, [], 0⟩ = .ok pt s) :
    Tree.bindM layLeaf (formOf J m t) ⟨[], 0⟩ =
      .ok (J.normal (pt.subst Placed.render)) (s.forms m) := by
  have hrun : Tree.bindM (fun l => Tree.subst (fun p => J.normal p.render) <$>
      placeLeaf none none l) t ⟨w, [], 0⟩ = .ok (J.normal (pt.subst Placed.render)) s := by
    rw [← Tree.map_bindM, JsonForm.normal, Tree.subst_subst]
    exact map_eq_ok.mpr ⟨pt, h, rfl⟩
  obtain ⟨s', hrun', hs'⟩ := Tree.bindM_simulate (R := fun (s : Scan σ) (s' : FormScan) =>
      s' = s.forms m) (g := fun l => Tree.bindM layLeaf (l.form J m)) t
    (fun l _ s y s₁ s' hs' hleaf => by
      obtain ⟨y', hplace, rfl⟩ := map_eq_ok.mp hleaf
      refine ⟨s₁.forms m, ?_, rfl⟩
      rw [hs', placeLeaf_form J m hplace, JsonForm.normal, Tree.subst_subst]
      rfl) rfl hrun
  rw [formOf, Tree.bindM_subst]
  subst hs'
  exact hrun'

/-! ## The bytes of forms -/

theorem body_form {m m' : Mem} {arrays arrays' : List (ℕ × NdArray)}
    (h : (arrays'.map fun x => (x.1, x.2.content m')) = arrays.map fun x => (x.1, x.2.content m))
    (c : ℕ) : body m' c arrays' = body m c arrays := by
  induction arrays generalizing arrays' c with
  | nil =>
    rw [List.map_eq_nil_iff.mp h]
    rfl
  | cons x arrays ih =>
    cases arrays' with
    | nil => cases h
    | cons x' arrays' =>
      obtain ⟨hhead, hrest⟩ := List.cons.inj h
      obtain ⟨hoff, hcontent⟩ := Prod.mk.inj hhead
      have hbytes : x'.2.tobytes m' = x.2.tobytes m := congrArg NdArray.Content.bytes hcontent
      have hlen : x'.2.nbytes = x.2.nbytes := by
        rw [← NdArray.tobytes_length m', ← NdArray.tobytes_length m, hbytes]
      show List.replicate (x'.1 - c) 0 ++ x'.2.tobytes m' ++ body m' (x'.1 + x'.2.nbytes) arrays' =
        List.replicate (x.1 - c) 0 ++ x.2.tobytes m ++ body m (x.1 + x.2.nbytes) arrays
      rw [ih hrest, hoff, hbytes, hlen]

/-- The two analyses lay out the same container, the arrays' bytes being those of `m` and `m'`. -/
structure Analysis.SameForm (a a' : Analysis) (m m' : Mem) : Prop where
  schemaId : a'.schemaId = a.schemaId
  schemaVersion : a'.schemaVersion = a.schemaVersion
  dataBytes : a'.dataBytes = a.dataBytes
  dataStart : a'.dataStart = a.dataStart
  metadataJson : a'.metadataJson = a.metadataJson
  arrays : (a'.arrays.map fun x => (x.1, x.2.content m')) =
    a.arrays.map fun x => (x.1, x.2.content m)

section Bytes
variable {a a' : Analysis} {m m' : Mem}

theorem Analysis.SameForm.totalSize (h : a.SameForm a' m m') : a'.totalSize = a.totalSize := by
  rw [Analysis.totalSize, Analysis.totalSize, h.dataStart, h.dataBytes]

theorem Analysis.SameForm.packHeader (h : a.SameForm a' m m') : packHeader a' = packHeader a := by
  have hvalues : headerValues a' = headerValues a := by
    rw [headerValues, headerValues, h.schemaId, h.schemaVersion, h.metadataJson, h.dataStart,
      h.dataBytes, h.totalSize]
  rw [Npb.packHeader, Npb.packHeader, hvalues]

theorem containerBytes_form (h : a.SameForm a' m m') (header : List UInt8) :
    containerBytes a' header m' = containerBytes a header m := by
  rw [containerBytes, containerBytes, frame, frame, body_form h.arrays, h.metadataJson,
    h.dataStart, h.dataBytes, h.totalSize]

/-- A buffer that holds the one container holds the other. -/
theorem Holds.of_form {memory : Mem} {binary : Buffer} (h : a.SameForm a' m m')
    (hholds : Holds memory binary a' m') (hlaid : Laid 0 a.arrays a.dataBytes) :
    Holds memory binary a m := by
  obtain ⟨-, hstart, hroom, header, hhead, hbytes⟩ := hholds
  refine ⟨hlaid, ?_, ?_, header, ?_, ?_⟩
  · rw [← h.dataStart, hstart, h.metadataJson]
  · rw [← h.totalSize]
    exact hroom
  · rw [← h.packHeader, hhead]
  · rw [← containerBytes_form h, ← hbytes, h.totalSize]

end Bytes
end Forms
end Npb
