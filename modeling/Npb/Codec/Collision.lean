import Npb.Codec.RoundTrip

/-! # Metadata that reads as a reference

A model without arrays comes back from `decode_auto` exactly when none of its mappings reads as a
reference: the decoder cannot tell a mapping the encoder emitted from one the user wrote. -/

namespace Npb
set_option autoImplicit false
open Effects Numpy

variable {σ : Type}

/-- The mappings `_restore_tree` takes for a reference, whoever wrote them. -/
def Collides (kvs : List (String × Json)) : Prop :=
  (∃ value, kvs = [("$blob", value)]) ∨
    ∃ ref, kvs = [("$bin", .dict ref)] ∧ ref.lookup "kind" = some (.leaf (.str "ndarray"))

theorem binReference_eq_some {kvs ref : List (String × Json)} :
    binReference kvs = some ref ↔
      kvs = [("$bin", .dict ref)] ∧ ref.lookup "kind" = some (.leaf (.str "ndarray")) := by
  unfold binReference
  constructor
  · intro h
    split at h
    · next ref' hsole =>
      split at h
      · next kind hkind =>
        split at h
        · next hn =>
          cases h
          rw [hn] at hkind
          exact ⟨Tree.soleValue_eq_some.mp hsole, hkind⟩
        · cases h
      · cases h
    · cases h
  · rintro ⟨rfl, hkind⟩
    simp [Tree.soleValue, hkind]

theorem notReference_iff (kvs : List (String × Json)) : NotReference kvs ↔ ¬ Collides kvs := by
  unfold NotReference Collides
  rw [Option.eq_none_iff_forall_ne_some, Option.eq_none_iff_forall_ne_some, not_or, not_exists,
    not_exists]
  simp only [ne_eq, Tree.soleValue_eq_some, binReference_eq_some]

/-- In a manifest no mapping of which reads as a reference, every leaf is the scalar it is. -/
theorem references_plain {j : Json} (h : j.EveryDict NotReference) :
    references j = j.map Reference.scalar := by
  induction j using Tree.induct with
  | leaf s => rfl
  | list xs ih =>
    rw [Tree.everyDict_list] at h
    rw [references_list, Tree.map, Tree.subst_list]
    congr 1
    exact List.map_congr_left fun x hx => ih x hx (h x hx)
  | dict kvs ih =>
    rw [Tree.everyDict_dict] at h
    rw [references_dict h.1, Tree.map, Tree.subst_dict]
    congr 1
    exact List.map_congr_left fun kv hkv => congrArg (Prod.mk kv.1) (ih kv hkv (h.2 kv hkv))

/-- A mapping that reads as a reference leaves a leaf that is no scalar. -/
theorem everyDict_of_references {j : Json} (h : ∀ r ∈ (references j).leaves, ∃ s, r = .scalar s) :
    j.EveryDict NotReference := by
  induction j using Tree.induct with
  | leaf s => trivial
  | list xs ih =>
    rw [Tree.everyDict_list]
    intro x hx
    apply ih x hx
    intro r hr
    apply h r
    rw [references_list, Tree.leaves_list, List.flatMap_map]
    exact List.mem_flatMap.mpr ⟨x, hx, hr⟩
  | dict kvs ih =>
    have hkvs : NotReference kvs := by
      rw [references] at h
      cases hblob : Tree.soleValue "$blob" kvs with
      | some value =>
        rw [hblob] at h
        obtain ⟨s, hs⟩ := h (.blob value) (List.mem_singleton_self _)
        cases hs
      | none =>
        rw [hblob] at h
        cases hbin : binReference kvs with
        | some ref =>
          rw [hbin] at h
          obtain ⟨s, hs⟩ := h (.bin ref) (List.mem_singleton_self _)
          cases hs
        | none => exact ⟨hblob, hbin⟩
    rw [Tree.everyDict_dict]
    refine ⟨hkvs, fun kv hkv => ih kv hkv fun r hr => h r ?_⟩
    rw [references_dict hkvs, Tree.leaves_dict, List.flatMap_map]
    exact List.mem_flatMap.mpr ⟨kv, hkv, hr⟩

/-! ## Models without arrays -/

section Plain
variable {R : Runtime} {model : Model} {j : Json} {blobStore : Option (BlobStore σ)}
  {externalizeMinBytes : Option ℤ}

theorem placeTree_plain (w : World σ) :
    placeTree blobStore externalizeMinBytes (j.map Leaf.scalar) ⟨w, [], 0⟩ =
      .ok (j.map Placed.scalar) ⟨w, [], 0⟩ := by
  rw [placeTree, Tree.bindM_map]
  exact Tree.bindM_pure j fun s _ => rfl

theorem render_plain (j : Json) : (j.map Placed.scalar).subst Placed.render = j := by
  have h := Tree.subst_map Placed.render Placed.scalar j
  exact h.trans (Tree.map_id j)

/-- The analysis of a model whose dumped tree is the JSON value `j`. -/
def plainAnalysis (schemaId : UUID) (schemaVersion : ℕ) (metadataJson : List UInt8) : Analysis where
  schemaId := schemaId
  schemaVersion := schemaVersion
  dataBytes := 0
  dataStart := alignUp (headerSize + metadataJson.length) frameSize
  arrays := []
  metadataJson := metadataJson

theorem analyzeModel_plain {schemaId : UUID} {schemaVersion : ℕ} {metadataJson : List UInt8}
    (hid : schemaIdentity model.cls = .ok (schemaId, schemaVersion))
    (hthreshold : checkThreshold blobStore externalizeMinBytes = .ok ())
    (hplain : model.tree = j.map Leaf.scalar)
    (hto : R.toJson jsonFallback j = .ok metadataJson) (w : World σ) :
    analyzeModel R model blobStore externalizeMinBytes w =
      .ok (plainAnalysis schemaId schemaVersion metadataJson) w := by
  refine analyzeModel_ok.mpr ⟨schemaId, schemaVersion, j.map Placed.scalar, ⟨w, [], 0⟩,
    metadataJson, hid, hthreshold, ?_, ?_, rfl, rfl⟩
  · rw [hplain]
    exact placeTree_plain w
  · rw [render_plain]
    exact hto

theorem encode_plain {schemaId : UUID} {schemaVersion : ℕ} {metadataJson : List UInt8}
    (hid : schemaIdentity model.cls = .ok (schemaId, schemaVersion))
    (hthreshold : checkThreshold blobStore externalizeMinBytes = .ok ())
    (hplain : model.tree = j.map Leaf.scalar)
    (hto : R.toJson jsonFallback j = .ok metadataJson) {out : Option Argument} {w w₂ : World σ}
    {binary : Buffer} (hout : acquireOutput R
      (plainAnalysis schemaId schemaVersion metadataJson).totalSize out w = .ok binary w₂)
    {header : List UInt8}
    (hhead : packHeader (plainAnalysis schemaId schemaVersion metadataJson) = .ok header) :
    ∃ w', encode R model out blobStore externalizeMinBytes w = .ok binary w' ∧
      Holds w'.mem binary (plainAnalysis schemaId schemaVersion metadataJson) w₂.mem := by
  have ha := analyzeModel_plain hid hthreshold hplain hto w
  obtain ⟨w', hrun, hholds, -⟩ := encode_holds ha hhead hout trivial
  exact ⟨w', hrun, hholds⟩

theorem decodeAuto_plain {a : Analysis} {m₀ : Mem} {binary : Buffer} {w : World σ}
    (h : Holds w.mem binary a m₀) (hfrom : R.fromJson a.metadataJson = .ok j) (writeable : Bool)
    (decodeStore : Option (BlobStore σ)) :
    decodeAuto R (.array binary.toArray writeable) decodeStore w = (do
      let tree ← Tree.bindM
        (restoreReference R binary a.dataStart a.dataBytes decodeStore) (references j)
      fromExcept (topLevel tree)) w := by
  rw [decodeAuto_container h.framed hfrom, restoreTree_eq]

/-- Restoring a reference leaves a scalar only where the manifest has one. -/
theorem scalar_of_restoreReference {binary : Buffer} {dataStart dataBytes : ℕ} {r : Reference}
    {w w' : World σ} {y : Tree Leaf}
    (h : restoreReference R binary dataStart dataBytes blobStore r w = .ok y w')
    (hy : ∀ l ∈ y.leaves, ∃ s, l = .scalar s) : ∃ s, r = .scalar s := by
  cases r with
  | scalar s => exact ⟨s, rfl⟩
  | bin ref =>
    rw [restoreReference, bind_eq_ok] at h
    obtain ⟨a, w₁, -, h⟩ := h
    cases h
    obtain ⟨s, hs⟩ := hy (.ndarray a) (List.mem_singleton_self _)
    cases hs
  | blob value =>
    rw [restoreReference, bind_eq_ok] at h
    obtain ⟨l, w₁, hblob, h⟩ := h
    cases h
    obtain ⟨s, rfl⟩ := hy l (List.mem_singleton_self _)
    obtain ⟨ref, -, ⟨-, hl, -⟩ | ⟨store, a, -, -, -, hl⟩⟩ := restoreBlob_ok hblob
    · cases hl
    · cases hl

theorem leaves_plain {t : Tree Leaf} (h : t = j.map Leaf.scalar) :
    ∀ l ∈ t.leaves, ∃ s, l = .scalar s := by
  intro l hl
  rw [h, Tree.leaves_map] at hl
  obtain ⟨s, -, rfl⟩ := List.mem_map.mp hl
  exact ⟨s, rfl⟩

/-- `decode_auto` of an encoded plain model returns the model's tree exactly when no mapping of the
tree reads as a reference and the header can hold the schema version and the metadata length. -/
theorem plain_roundTrip_iff {schemaId : UUID} {schemaVersion : ℕ} {metadataJson : List UInt8}
    (hid : schemaIdentity model.cls = .ok (schemaId, schemaVersion))
    (hthreshold : checkThreshold blobStore externalizeMinBytes = .ok ())
    (hplain : model.tree = j.map Leaf.scalar)
    (hto : R.toJson jsonFallback j = .ok metadataJson)
    (hfrom : R.fromJson metadataJson = .ok j) {out : Option Argument} {w : World σ}
    (hout : ∃ binary w₂, acquireOutput R
      (plainAnalysis schemaId schemaVersion metadataJson).totalSize out w = .ok binary w₂)
    (decodeStore : Option (BlobStore σ)) (writeable : Bool) :
    (∃ binary w' kvs w'', encode R model out blobStore externalizeMinBytes w = .ok binary w' ∧
      decodeAuto R (.array binary.toArray writeable) decodeStore w' = .ok kvs w'' ∧
      Tree.dict kvs = model.tree) ↔
    j.EveryDict (fun kvs => ¬ Collides kvs) ∧ schemaVersion < 2 ^ 32 ∧
      metadataJson.length < 2 ^ 32 := by
  obtain ⟨binary, w₂, hacquire⟩ := hout
  have ha := analyzeModel_plain hid hthreshold hplain hto w
  constructor
  · rintro ⟨binary', w', kvs, w'', hencode, hdecode, htree⟩
    obtain ⟨header, hhead⟩ := packHeader_of_encode ha hencode
    obtain ⟨hversion, hmeta, -⟩ := (packHeader_isOk_iff _).mp ⟨header, hhead⟩
    obtain ⟨w₃, hrun, hholds⟩ := encode_plain hid hthreshold hplain hto hacquire hhead
    cases hencode.symm.trans hrun
    refine ⟨?_, hversion, hmeta⟩
    rw [decodeAuto_plain hholds hfrom, bind_eq_ok] at hdecode
    obtain ⟨tree, w₄, htraverse, htop⟩ := hdecode
    rw [topLevel_eq_ok.mp (fromExcept_eq_ok.mp htop).1, htree] at htraverse
    -- every reference of the manifest has left a leaf of the model's tree, hence a scalar
    have hscalar : ∀ r ∈ (references j).leaves, ∃ s, r = .scalar s := by
      intro r hr
      obtain ⟨s₁, y, s₂, hy, hsub⟩ := Tree.bindM_each htraverse hr
      exact scalar_of_restoreReference hy fun l hl => leaves_plain hplain l (hsub l hl)
    exact (everyDict_of_references hscalar).mono fun kvs => (notReference_iff kvs).mp
  · rintro ⟨hcollide, hversion, hmeta⟩
    have hlt := binary.size_lt
    have hsize := (acquireOutput_ok hacquire).1
    obtain ⟨header, hhead⟩ := (packHeader_isOk_iff
      (plainAnalysis schemaId schemaVersion metadataJson)).mpr ⟨hversion, hmeta, by omega⟩
    obtain ⟨w', hrun, hholds⟩ := encode_plain hid hthreshold hplain hto hacquire hhead
    have hrefs := references_plain (hcollide.mono fun kvs => (notReference_iff kvs).mpr)
    obtain ⟨fields, hfields⟩ : ∃ fields, model.tree = .dict fields := ⟨_, rfl⟩
    refine ⟨binary, w', fields, w', hrun, ?_, hfields.symm⟩
    have hbind : ∀ dataStart dataBytes,
        Tree.bindM (fun s => restoreReference R binary dataStart dataBytes decodeStore (.scalar s))
          j w' = .ok (j.map Leaf.scalar) w' :=
      fun dataStart dataBytes => Tree.bindM_pure j fun s _ => rfl
    rw [decodeAuto_plain hholds hfrom, hrefs, Tree.bindM_map, bind_ok (hbind _ _)]
    exact fromExcept_eq_ok.mpr ⟨topLevel_eq_ok.mpr (hplain.symm.trans hfields), rfl⟩

end Plain

/-! ## Two models with one metadata field -/

section Samples

/-- The model whose only field `meta` is the mapping `{key: value}`. -/
def metaModel (key : String) (value : Scalar) : Model where
  cls := ⟨"Meta", some ⟨Vector.replicate 16 7⟩, some 1⟩
  fields := [("meta", .dict [(key, .leaf (.scalar value))])]

def metaJson (key : String) (value : Scalar) : Json :=
  .dict [("meta", .dict [(key, .leaf value)])]

def emptyWorld : World Unit := ⟨fun _ => 0, fun _ => false, ()⟩

theorem acquireOutput_ofDocument (document : Json) (text : String) (free : ℤ) {n : ℕ}
    (hn : n < 2 ^ 63) (w : World σ) :
    ∃ binary w', acquireOutput (.ofDocument document text free) n none w = .ok binary w' := by
  unfold acquireOutput
  exact ⟨_, _, empty_eq_ok.mpr ⟨free, hn, rfl, rfl, rfl⟩⟩

def pageText : String := "\x7b\"meta\":\x7b\"page\":3\x7d\x7d"

def pageRuntime : Runtime := .ofDocument (metaJson "page" (.int 3)) pageText 4096

theorem plain_roundTrip_iff_page :
    (∃ binary w' kvs w'',
      encode pageRuntime (metaModel "page" (.int 3)) none none none emptyWorld = .ok binary w' ∧
      decodeAuto pageRuntime (.array binary.toArray true) none w' = .ok kvs w'' ∧
      Tree.dict kvs = (metaModel "page" (.int 3)).tree) ↔
    (metaJson "page" (.int 3)).EveryDict (fun kvs => ¬ Collides kvs) ∧ 1 < 2 ^ 32 ∧
      (asciiBytes pageText).length < 2 ^ 32 :=
  plain_roundTrip_iff rfl rfl rfl rfl (Runtime.fromJson_ofDocument ..)
    (acquireOutput_ofDocument _ _ _ (by decide +kernel) _) none true

def blobText : String := "\x7b\"meta\":\x7b\"$blob\":\"x\"\x7d\x7d"

def blobRuntime : Runtime := .ofDocument (metaJson "$blob" (.str "x")) blobText 4096

/-- A model with the metadata `{"$blob": "x"}` encodes, and its container does not decode. -/
theorem blob_metadata_undecodable :
    ∃ binary w', encode blobRuntime (metaModel "$blob" (.str "x")) none none none emptyWorld =
        .ok binary w' ∧
      decodeAuto blobRuntime (.array binary.toArray true) none w' =
        .error (.formatError "invalid external blob reference") w' := by
  let a := plainAnalysis ⟨Vector.replicate 16 7⟩ 1 (asciiBytes blobText)
  have hsize : a.totalSize < 2 ^ 63 := by decide +kernel
  obtain ⟨binary, w₂, hacquire⟩ : ∃ binary w', acquireOutput blobRuntime a.totalSize none
      emptyWorld = .ok binary w' := acquireOutput_ofDocument _ _ _ hsize _
  obtain ⟨header, hhead⟩ := (packHeader_isOk_iff a).mpr
    ⟨by decide, by decide +kernel, by decide +kernel⟩
  obtain ⟨w', hrun, hholds⟩ : ∃ w', encode blobRuntime (metaModel "$blob" (.str "x")) none none
      none emptyWorld = .ok binary w' ∧ Holds w'.mem binary a w₂.mem :=
    encode_plain (j := metaJson "$blob" (.str "x")) rfl rfl rfl rfl hacquire hhead
  refine ⟨binary, w', hrun, ?_⟩
  have hfrom : blobRuntime.fromJson a.metadataJson = .ok (metaJson "$blob" (.str "x")) :=
    Runtime.fromJson_ofDocument ..
  rw [decodeAuto_plain hholds hfrom]
  rfl

end Samples

end Npb
