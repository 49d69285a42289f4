import Npb.Codec.Containment
import Npb.Codec.Republish

/-! # What stays inline

`encode` with a store and a threshold leaves inline only arrays below the threshold, and that is
what a decoder of the container finds inline (`encode_below`, `decodeAuto_below`): every larger
array of the decoded tree comes from the store. -/

namespace Npb
set_option autoImplicit false
open Effects Numpy

variable {σ : Type}

/-! ## Keys -/

/-- The keys of a dictionary that has not `"$bin"` as its only key. -/
def UnmarkedKeys (keys : List String) : Prop := keys.Nodup ∧ keys ≠ ["$bin"]

/-- Every mapping is such a dictionary. -/
def Unmarked {α : Type} (t : Tree α) : Prop :=
  t.EveryDict fun kvs => UnmarkedKeys (kvs.map Prod.fst)

/-- No mapping has a key twice. -/
def DistinctKeys {α : Type} (t : Tree α) : Prop := t.EveryDict fun kvs => (kvs.map Prod.fst).Nodup

theorem everyKeys_subst {α β : Type} {P : List String → Prop} (g : α → Tree β) (t : Tree α) :
    ((t.subst g).EveryDict fun kvs => P (kvs.map Prod.fst)) ↔
      (t.EveryDict fun kvs => P (kvs.map Prod.fst)) ∧
        ∀ a ∈ t.leaves, (g a).EveryDict fun kvs => P (kvs.map Prod.fst) := by
  rw [Tree.everyDict_subst]
  simp only [List.map_map, Function.comp_def]

theorem Unmarked.distinct {α : Type} {t : Tree α} (h : Unmarked t) : DistinctKeys t :=
  Tree.EveryDict.mono (fun _ hkvs => hkvs.1) h

/-- `from_json` reads a document back with its scalars in their JSON forms, if at all. -/
structure Runtime.ReadsBack (R : Runtime) (J : JsonForm) : Prop where
  forms : ∀ s, Unmarked (J.form s)
  document : ∀ manifest metadataJson j, DistinctKeys manifest →
    R.toJson jsonFallback manifest = .ok metadataJson → R.fromJson metadataJson = .ok j →
    j = J.normal manifest

theorem distinctKeys_list {α : Type} (xs : List α) : DistinctKeys (.list (xs.map Tree.leaf)) := by
  rw [DistinctKeys, Tree.everyDict_list]
  intro x hx
  obtain ⟨a, -, rfl⟩ := List.mem_map.mp hx
  trivial

theorem distinctKeys_render (p : Placed) : DistinctKeys p.render := by
  cases p with
  | scalar s => trivial
  | inline relOffset a =>
    have hshape := distinctKeys_list (a.shape.map fun d : ℕ => Scalar.int d)
    rw [List.map_map] at hshape
    exact ⟨by simp, ⟨by simp, trivial, trivial, trivial, trivial, hshape, trivial⟩, trivial⟩
  | external ref =>
    have hshape := distinctKeys_list (ref.shape.map Scalar.int)
    rw [List.map_map] at hshape
    exact ⟨by simp, ⟨by simp, trivial, trivial, trivial, trivial, trivial, hshape, trivial⟩,
      trivial⟩

section Reading
variable {R : Runtime} {J : JsonForm}

theorem Unmarked.normal (hread : R.ReadsBack J) {pt : Tree Placed} (h : Unmarked pt) :
    Unmarked (pt.subst (Placed.normal J)) := by
  rw [Unmarked, everyKeys_subst]
  refine ⟨h, ?_⟩
  intro p _
  cases p with
  | scalar s =>
    rw [Placed.normal, Tree.map, everyKeys_subst]
    exact ⟨hread.forms s, fun _ _ => trivial⟩
  | inline relOffset a => trivial
  | external ref => trivial

theorem inline_of_normal {pt : Tree Placed} {relOffset : ℕ} {a : NdArray}
    (h : Placed.inline relOffset a ∈ (pt.subst (Placed.normal J)).leaves) :
    Placed.inline relOffset a ∈ pt.leaves := by
  rw [Tree.leaves_subst] at h
  obtain ⟨p, hp, h⟩ := List.mem_flatMap.mp h
  cases p with
  | scalar v =>
    rw [Placed.normal, Tree.leaves_map] at h
    obtain ⟨_, -, hv⟩ := List.mem_map.mp h
    cases hv
  | inline relOffset' a' =>
    cases List.mem_singleton.mp h
    exact hp
  | external ref => cases List.mem_singleton.mp h

theorem Unmarked.render_distinct {pt : Tree Placed} (h : Unmarked pt) :
    DistinctKeys (pt.subst Placed.render) := by
  rw [DistinctKeys, everyKeys_subst]
  exact ⟨h.distinct, fun p _ => distinctKeys_render p⟩

/-- The inline references of a rendering are those of the inline places. -/
theorem references_unmarked {pt : Tree Placed} (h : Unmarked pt) :
    Unmarked (references (pt.subst Placed.render)) ∧
      ∀ ref, Reference.bin ref ∈ (references (pt.subst Placed.render)).leaves →
        ∃ relOffset a, Placed.inline relOffset a ∈ pt.leaves ∧ ref = binFields relOffset a := by
  induction pt with
  | leaf p =>
    cases p with
    | scalar s => exact ⟨trivial, by simp [Placed.render, references]⟩
    | inline relOffset a =>
      rw [Tree.subst_leaf, Placed.render, references_binManifest]
      refine ⟨trivial, ?_⟩
      intro ref href
      cases List.mem_singleton.mp href
      exact ⟨relOffset, a, List.mem_singleton_self _, rfl⟩
    | external ref =>
      rw [Tree.subst_leaf, Placed.render, references_blobManifest]
      exact ⟨trivial, by simp⟩
  | list xs ih =>
    rw [Unmarked, Tree.everyDict_list] at h
    rw [Tree.subst_list, references_list, List.map_map]
    constructor
    · rw [Unmarked, Tree.everyDict_list, List.forall_mem_map]
      exact fun x hx => (ih x hx (h x hx)).1
    · intro ref href
      rw [Tree.leaves_list, List.flatMap_map] at href
      obtain ⟨x, hx, href⟩ := List.mem_flatMap.mp href
      obtain ⟨relOffset, a, ha, rfl⟩ := (ih x hx (h x hx)).2 ref href
      refine ⟨relOffset, a, ?_, rfl⟩
      rw [Tree.leaves_list]
      exact List.mem_flatMap.mpr ⟨x, hx, ha⟩
  | dict kvs ih =>
    rw [Unmarked, Tree.everyDict_dict] at h
    obtain ⟨⟨hdistinct, hkeys⟩, hvalues⟩ := h
    rw [Tree.subst_dict]
    cases hblob : Tree.soleValue "$blob" (kvs.map fun kv => (kv.1, kv.2.subst Placed.render)) with
    | some value =>
      rw [references, hblob]
      exact ⟨trivial, by simp⟩
    | none =>
      have hbin : binReference (kvs.map fun kv => (kv.1, kv.2.subst Placed.render)) = none := by
        rw [binReference, Tree.soleValue_of_keys]
        rwa [List.map_map]
      rw [references_dict ⟨hblob, hbin⟩, List.map_map]
      constructor
      · rw [Unmarked, Tree.everyDict_dict, List.forall_mem_map, List.map_map]
        exact ⟨⟨hdistinct, hkeys⟩, fun kv hkv => (ih kv hkv (hvalues kv hkv)).1⟩
      · intro ref href
        rw [Tree.leaves_dict, List.flatMap_map] at href
        obtain ⟨kv, hkv, href⟩ := List.mem_flatMap.mp href
        obtain ⟨relOffset, a, ha, rfl⟩ := (ih kv hkv (hvalues kv hkv)).2 ref href
        refine ⟨relOffset, a, ?_, rfl⟩
        rw [Tree.leaves_dict]
        exact List.mem_flatMap.mpr ⟨kv, hkv, ha⟩

theorem convertBin_nbytes {relOffset : ℕ} {a : NdArray} {r : BinRef}
    (h : convertBin R (binFields relOffset a) = .ok r) : r.nbytes = a.nbytes := by
  unfold convertBin at h
  obtain ⟨_, hoffset, h⟩ := except_bind_eq_ok.mp h
  obtain ⟨offset, -, h⟩ := except_bind_eq_ok.mp h
  obtain ⟨field, hfield, h⟩ := except_bind_eq_ok.mp h
  obtain ⟨nbytes, hnbytes, h⟩ := except_bind_eq_ok.mp h
  obtain ⟨_, -, h⟩ := except_bind_eq_ok.mp h
  obtain ⟨dtype, -, h⟩ := except_bind_eq_ok.mp h
  obtain ⟨_, -, h⟩ := except_bind_eq_ok.mp h
  obtain ⟨_, -, h⟩ := except_bind_eq_ok.mp h
  obtain ⟨shape, -, h⟩ := except_bind_eq_ok.mp h
  cases hfield
  cases hnbytes
  cases h
  rfl

end Reading

/-! ## Inline arrays of a container -/

/-- The buffer holds a container whose inline references name fewer than `t` bytes each. -/
def HoldsBelow (R : Runtime) (t : ℤ) (m : Mem) (binary : Buffer) : Prop :=
  ∃ a, Framed m binary a ∧ ∀ j, R.fromJson a.metadataJson = .ok j →
    Unmarked (references j) ∧ ∀ ref r, Reference.bin ref ∈ (references j).leaves →
      convertBin R ref = .ok r → r.nbytes < t

section Containers
variable {R : Runtime} {J : JsonForm} {model : Model} {store : BlobStore σ} {t : ℤ}
  {w w' : World σ} {binary : Buffer}

theorem externalStore_eq_none {a : NdArray} :
    externalStore (some store) (some t) a = none ↔ (a.nbytes : ℤ) < t := by
  show (if t ≤ a.nbytes then some store else none) = none ↔ _
  rw [ite_eq_right_iff]
  simp

theorem placeTree_unmarked {blobStore : Option (BlobStore σ)} {externalizeMinBytes : Option ℤ}
    {tree : Tree Leaf} {s s' : Scan σ} {pt : Tree Placed} (h : Unmarked tree)
    (hplace : placeTree blobStore externalizeMinBytes tree s = .ok pt s') : Unmarked pt := by
  refine Tree.bindM_everyDict tree ?_ h hplace
  intro l _ s y s' hleaf
  rcases placeLeaf_ok hleaf with ⟨v, -, rfl, -⟩ | ⟨ref, -, rfl, -⟩ |
    ⟨a, store, ref, w, -, -, -, -, rfl, -⟩ | ⟨a, -, -, -, rfl, -⟩ <;> trivial

theorem encode_below (hread : R.ReadsBack J) (hmodel : Unmarked model.tree)
    {out : Option Argument}
    (h : encode R model out (some store) (some t) w = .ok binary w') :
    HoldsBelow R t w'.mem binary := by
  obtain ⟨a, w₁, w₂, ha, -, hframed, -⟩ := encode_framed h
  obtain ⟨schemaId, schemaVersion, pt, s, metadataJson, -, -, hplace, hto, rfl, -⟩ :=
    analyzeModel_ok.mp ha
  have hpt : Unmarked pt := placeTree_unmarked hmodel hplace
  refine ⟨_, hframed, ?_⟩
  intro j hfrom
  have hj := hread.document _ _ _ hpt.render_distinct hto hfrom
  rw [← subst_render_normal] at hj
  subst hj
  obtain ⟨hkeys, hbins⟩ := references_unmarked (hpt.normal hread)
  refine ⟨hkeys, ?_⟩
  intro ref r href hconvert
  obtain ⟨relOffset, node, hnode, rfl⟩ := hbins ref href
  rw [convertBin_nbytes hconvert]
  obtain ⟨hlaid, hmem⟩ := placeTree_laidOut hplace
  obtain ⟨-, -, hnone⟩ := hlaid.source _ _ (hmem _ _ (inline_of_normal hnode))
  exact externalStore_eq_none.mp hnone

theorem decodeAuto_fromJson {blobStore : Option (BlobStore σ)} {a : Analysis}
    (h : Framed w.mem binary a) {writeable : Bool} {kvs : List (String × Tree Leaf)}
    (hrun : decodeAuto R (.array binary.toArray writeable) blobStore w = .ok kvs w') :
    ∃ j, R.fromJson a.metadataJson = .ok j := by
  have hheader := parseHeader_run (parseHeaderIn_eq_ok.mp (parseHeaderIn_container h)) writeable
  rw [decodeAuto, bind_ok hheader] at hrun
  have htree : decodeTree R binary a.info blobStore w = .ok kvs w' := hrun
  rw [decodeTree, bind_ok (get_run w), bind_eq_ok] at htree
  obtain ⟨j, w₁, hparse, -⟩ := htree
  obtain ⟨hparse, -⟩ := fromExcept_eq_ok.mp hparse
  rw [Analysis.info, metadata_container h, parseMetadata, catching_eq_ok] at hparse
  exact ⟨j, hparse⟩

theorem restored_below {K : World σ → NdArray → Prop}
    (hget : ∀ ref v a v', store.getArray ref v = .ok a v' → K v' a ∧ ∀ b, K v b → K v' b)
    {a : Analysis} {r : Reference} (hbelow : ∀ ref b, r = .bin ref →
      restoreBin R binary a.dataStart a.dataBytes ref = .ok b → (b.nbytes : ℤ) < t)
    {y : Tree Leaf}
    (h : restoreReference R binary a.dataStart a.dataBytes (some store) r w = .ok y w') :
    (∀ l ∈ y.leaves, ∀ b, l = Leaf.ndarray b → (b.nbytes : ℤ) < t ∨ K w' b) ∧
      ∀ l : Leaf, (∀ b, l = .ndarray b → (b.nbytes : ℤ) < t ∨ K w b) →
        ∀ b, l = .ndarray b → (b.nbytes : ℤ) < t ∨ K w' b := by
  cases r with
  | scalar v =>
    cases h
    refine ⟨?_, fun l hl => hl⟩
    intro l hl b hb
    cases List.mem_singleton.mp hl
    cases hb
  | bin ref =>
    rw [restoreReference, bind_eq_ok] at h
    obtain ⟨b', w₁, hbin₀, h⟩ := h
    obtain ⟨hbin, rfl⟩ := fromExcept_eq_ok.mp hbin₀
    cases h
    refine ⟨?_, fun l hl => hl⟩
    intro l hl b hb
    cases List.mem_singleton.mp hl
    cases hb
    exact .inl (hbelow ref b' rfl hbin)
  | blob value =>
    rw [restoreReference, bind_eq_ok] at h
    obtain ⟨l', w₁, hblob, h⟩ := h
    cases h
    obtain ⟨ref, -, ⟨hnone, -⟩ | ⟨store', b', hstore, -, hrun, rfl⟩⟩ := restoreBlob_ok hblob
    · cases hnone
    cases hstore
    obtain ⟨hgot, hkept⟩ := hget ref w b' w' hrun
    constructor
    · intro l hl b hb
      cases List.mem_singleton.mp hl
      cases hb
      exact .inr hgot
    · intro l hl b hb
      exact (hl b hb).imp_right (hkept b)

/-- A decoded array is below the threshold, or the store returned it and still has it so. -/
theorem decodeAuto_below {K : World σ → NdArray → Prop}
    (hget : ∀ ref v a v', store.getArray ref v = .ok a v' → K v' a ∧ ∀ b, K v b → K v' b)
    (h : HoldsBelow R t w.mem binary) {writeable : Bool} {kvs : List (String × Tree Leaf)}
    (hrun : decodeAuto R (.array binary.toArray writeable) (some store) w = .ok kvs w') :
    Unmarked (.dict kvs) ∧ ∀ a ∈ arraysOf (.dict kvs), (a.nbytes : ℤ) < t ∨ K w' a := by
  obtain ⟨a, hframed, hbelow⟩ := h
  have haccepted := parseHeaderIn_eq_ok.mp (parseHeaderIn_container hframed)
  obtain ⟨j, hfrom⟩ := decodeAuto_fromJson hframed hrun
  obtain ⟨hkeys, hbins⟩ := hbelow j hfrom
  rw [decodeAuto_container hframed hfrom, restoreTree_eq, bind_eq_ok] at hrun
  obtain ⟨tree, w₁, htree, htop₀⟩ := hrun
  obtain ⟨htop, rfl⟩ := fromExcept_eq_ok.mp htop₀
  rw [topLevel_eq_ok.mp htop] at htree
  constructor
  · refine Tree.bindM_everyDict _ ?_ hkeys htree
    intro r _ s y s' hleaf
    cases r with
    | scalar v =>
      cases hleaf
      trivial
    | bin ref =>
      obtain ⟨b, s₁, -, hleaf⟩ := bind_eq_ok.mp hleaf
      cases hleaf
      trivial
    | blob value =>
      obtain ⟨l, s₁, -, hleaf⟩ := bind_eq_ok.mp hleaf
      cases hleaf
      trivial
  · have hpost := Tree.bindM_post (I := fun _ => True)
      (Q := fun v l => ∀ b, l = Leaf.ndarray b → (b.nbytes : ℤ) < t ∨ K v b) (references j)
      (fun r hr v y v' _ hleaf => ⟨trivial, restored_below hget (fun ref b href hbin => by
        subst href
        obtain ⟨r, hconvert, hnames⟩ := restoreBin_names haccepted hbin
        rw [hnames.nbytes]
        exact hbins ref r hr hconvert) hleaf⟩) trivial htree
    intro b hb
    exact hpost.2.1 _ (mem_arraysOf.mp hb) b rfl

end Containers

/-! ## What decoding and encoding do to the world -/

section Worlds
variable {R : Runtime} {store : BlobStore σ} {Q : World σ → World σ → Prop}

theorem decodeTree_keeps (refl : ∀ w, Q w w)
    (trans : ∀ w₁ w₂ w₃, Q w₁ w₂ → Q w₂ w₃ → Q w₁ w₃)
    (hget : ∀ ref w, Q w (finalState (store.getArray ref w))) (binary : Buffer)
    (info : BinaryInfo) (w : World σ) :
    Q w (finalState (decodeTree R binary info (some store) w)) := by
  have hexcept : ∀ {α : Type} (x : Except PyError α) (w : World σ),
      Q w (finalState (fromExcept x w : EStateM.Result PyError (World σ) α)) := by
    intro α x w
    rw [finalState_fromExcept]
    exact refl w
  have hleaf : ∀ r w, Q w (finalState
      (restoreReference R binary info.dataStart info.dataBytes (some store) r w)) := by
    intro r w
    cases r with
    | scalar s => exact refl w
    | bin ref => exact bind_keeps trans (hexcept _ _) fun _ _ _ => refl _
    | blob value =>
      refine bind_keeps trans ?_ fun _ _ _ => refl _
      refine bind_keeps trans (hexcept _ _) fun ref w _ => ?_
      refine bind_keeps trans (hexcept _ _) fun _ w _ => ?_
      exact bind_keeps trans (hget ref w) fun _ _ _ => refl _
  refine bind_keeps trans (refl w) fun w' w _ => ?_
  refine bind_keeps trans (hexcept _ _) fun manifest w _ => ?_
  rw [restoreTree_eq]
  refine bind_keeps trans ?_ fun _ _ _ => hexcept _ _
  exact Tree.bindM_keeps refl trans _ (fun r _ => hleaf r) w

theorem decodeChecked_keeps (refl : ∀ w, Q w w)
    (trans : ∀ w₁ w₂ w₃, Q w₁ w₂ → Q w₂ w₃ → Q w₁ w₃)
    (hget : ∀ ref w, Q w (finalState (store.getArray ref w))) (cls : ModelClass)
    (arg : Argument) (w : World σ) :
    Q w (finalState (decodeChecked R cls arg (some store) w)) := by
  have hexcept : ∀ {α : Type} (x : Except PyError α) (w : World σ),
      Q w (finalState (fromExcept x w : EStateM.Result PyError (World σ) α)) := by
    intro α x w
    rw [finalState_fromExcept]
    exact refl w
  have hheader : ∀ w : World σ, Q w (finalState (parseHeader arg w)) := by
    intro w
    refine bind_keeps trans (hexcept _ _) fun b w _ => ?_
    refine bind_keeps trans (refl w) fun w' w _ => ?_
    exact bind_keeps trans (hexcept _ _) fun _ _ _ => refl _
  refine bind_keeps trans (hexcept _ _) fun id w _ => ?_
  refine bind_keeps trans (hheader w) fun parsed w _ => ?_
  refine bind_keeps trans (hexcept _ _) fun _ w _ => ?_
  refine bind_keeps trans (hexcept _ _) fun _ w _ => ?_
  refine bind_keeps trans (decodeTree_keeps refl trans hget _ _ w) fun _ w _ => ?_
  exact bind_keeps trans (hexcept _ _) fun _ _ _ => refl _

theorem decodeChecked_ok {blobStore : Option (BlobStore σ)} {cls : ModelClass} {arg : Argument}
    {w w' : World σ} {kvs : List (String × Tree Leaf)}
    (h : decodeChecked R cls arg blobStore w = .ok kvs w') :
    decodeAuto R arg blobStore w = .ok kvs w' := by
  obtain ⟨id, w₁, hid, h₁⟩ := bind_eq_ok.mp h
  obtain ⟨-, rfl⟩ := fromExcept_eq_ok.mp hid
  obtain ⟨parsed, w₂, hheader, h₂⟩ := bind_eq_ok.mp h₁
  obtain ⟨u, w₃, hschema, h₃⟩ := bind_eq_ok.mp h₂
  obtain ⟨-, rfl⟩ := fromExcept_eq_ok.mp hschema
  obtain ⟨u', w₄, hversion, h₄⟩ := bind_eq_ok.mp h₃
  obtain ⟨-, rfl⟩ := fromExcept_eq_ok.mp hversion
  obtain ⟨tree, w₅, htree, h₅⟩ := bind_eq_ok.mp h₄
  obtain ⟨u'', w₆, hresolved, h₆⟩ := bind_eq_ok.mp h₅
  obtain ⟨-, rfl⟩ := fromExcept_eq_ok.mp hresolved
  cases h₆
  exact (bind_ok hheader _).trans htree

/-! ## The writes of `encode` -/

theorem bind_store {α β : Type} {x : Py σ α} {f : α → Py σ β} {w : World σ}
    (hx : (finalState (x w)).store = w.store)
    (hf : ∀ a w', (finalState (f a w')).store = w'.store) :
    (finalState ((x >>= f) w)).store = w.store :=
  bind_keeps (R := fun w w' : World σ => w'.store = w.store) (fun _ _ _ h h' => h'.trans h) hx
    fun a w' _ => hf a w'

theorem zeroGap_store (binary : Buffer) (lo hi : ℕ) (w : World σ) :
    (finalState (zeroGap binary lo hi w)).store = w.store := by
  unfold zeroGap
  split <;> rfl

theorem assignSlice_store (binary : Buffer) (lo : ℕ) (bs : List UInt8) (w : World σ) :
    (finalState (assignSlice binary lo bs w)).store = w.store := by
  unfold assignSlice
  split <;> rfl

theorem acquireOutput_store (R : Runtime) (n : ℕ) (out : Option Argument) (w : World σ) :
    (finalState (acquireOutput R n out w)).store = w.store := by
  cases out with
  | some arg => rw [acquireOutput, finalState_fromExcept]
  | none =>
    show (finalState (empty R.alloc n w)).store = w.store
    unfold empty
    split
    · cases R.alloc w.live n <;> rfl
    · rfl

theorem writeArrays_store (binary : Buffer) (dataStart : ℕ) (arrays : List (ℕ × NdArray))
    (previousEnd : ℕ) (w : World σ) :
    (finalState (writeArrays binary dataStart arrays previousEnd w)).store = w.store := by
  induction arrays generalizing previousEnd w with
  | nil => rfl
  | cons x arrays ih =>
    obtain ⟨relOffset, a⟩ := x
    apply bind_store rfl
    intro arr w
    apply bind_store (zeroGap_store ..)
    intro _ w
    apply bind_store rfl
    intro v w
    apply bind_store (assignSlice_store ..)
    exact fun _ => ih _

/-- Once the model is analysed, `encode` no longer touches the store. -/
theorem encode_store (model : Model) (out : Option Argument) (blobStore : Option (BlobStore σ))
    (externalizeMinBytes : Option ℤ) (w : World σ) :
    (finalState (encode R model out blobStore externalizeMinBytes w)).store =
      (finalState (analyzeModel R model blobStore externalizeMinBytes w)).store := by
  unfold encode
  rw [bind_run]
  cases analyzeModel R model blobStore externalizeMinBytes w with
  | error e w₁ => rfl
  | ok a w₁ =>
    refine bind_store ?_ fun binary w => ?_
    · apply bind_store (acquireOutput_store ..)
      intro binary w
      exact bind_store rfl fun _ _ => rfl
    apply bind_store
    · apply bind_store (assignSlice_store ..)
      intro _ w
      refine bind_store ?_ fun _ _ => rfl
      rw [finalState_fromExcept]
    intro _ w
    apply bind_store (assignSlice_store ..)
    intro _ w
    apply bind_store (writeArrays_store ..)
    intro _ w
    exact bind_store (zeroGap_store ..) fun _ _ => rfl

end Worlds
end Npb
