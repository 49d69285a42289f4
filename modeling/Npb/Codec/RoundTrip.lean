import Npb.Codec.Reading

/-! # Inline round trip

`decode_auto` undoes `encode` when no mapping of the model reads as a reference: every scalar comes
back, every array comes back as a view with the same element type, shape and elements
(`encode_roundTrip`). -/

namespace Npb
set_option autoImplicit false
open Effects Numpy

variable {σ : Type}

/-! ## What is compared -/

/-- A leaf as a reader of the tree sees it: an array is its content, wherever it lies. -/
inductive LeafValue where
  | scalar (s : Scalar)
  | array (content : NdArray.Content)
  | blobRef (ref : BlobRef)
  deriving DecidableEq

def Leaf.observe (m : Mem) : Leaf → LeafValue
  | .scalar s => .scalar s
  | .ndarray a => .array (a.content m)
  | .blobRef ref => .blobRef ref

/-- The leaf a placed leaf stands for. -/
def Placed.source : Placed → Leaf
  | .scalar s => .scalar s
  | .inline _ a => .ndarray a
  | .external ref => .blobRef ref

/-- An array the inline format carries: `np.dtype` reads its dtype string back. -/
structure Supported (R : Runtime) (a : NdArray) : Prop where
  valid : validateNdarray a = .ok ()
  itemsize_pos : 0 < a.dtype.itemsize
  dtype_str : R.dtype (.leaf (.str a.dtype.str)) = .ok (.plain a.dtype)

/-- No mapping has `"$bin"` or `"$blob"` as its only key. -/
def NoMarkers {α : Type} (t : Tree α) : Prop :=
  t.EveryDict fun kvs => kvs.map Prod.fst ≠ ["$bin"] ∧ kvs.map Prod.fst ≠ ["$blob"]

theorem noMarkers_map {α β : Type} (f : α → β) (t : Tree α) :
    NoMarkers (t.map f) ↔ NoMarkers t := by
  unfold NoMarkers
  rw [Tree.everyDict_map]
  simp only [List.map_map, Function.comp_def]

theorem notReference_of_keys {kvs : List (String × Json)} (hbin : kvs.map Prod.fst ≠ ["$bin"])
    (hblob : kvs.map Prod.fst ≠ ["$blob"]) : NotReference kvs := by
  refine ⟨Tree.soleValue_of_keys hblob, ?_⟩
  rw [binReference, Tree.soleValue_of_keys hbin]

theorem NoMarkers.notReference {t : Tree Placed} (h : NoMarkers t) :
    t.EveryDict fun kvs => NotReference (kvs.map fun kv => (kv.1, kv.2.subst Placed.render)) := by
  refine Tree.EveryDict.mono (fun kvs hkvs => ?_) h
  apply notReference_of_keys
  · simpa only [List.map_map, Function.comp_def] using hkvs.1
  · simpa only [List.map_map, Function.comp_def] using hkvs.2

/-! ## Placing without a store -/

/-- Without a store every array is placed, and the placed tree stands for the tree itself. -/
theorem placeTree_inline {t : Tree Leaf}
    (hvalid : ∀ a ∈ arraysOf t, validateNdarray a = .ok ()) (w : World σ) :
    ∃ pt s, placeTree none none t ⟨w, [], 0⟩ = .ok pt s ∧ s.world = w ∧
      pt.map Placed.source = t := by
  obtain ⟨pt, s, hrun, hworld, hsettled, -⟩ := Tree.bindM_observe
    (I := fun s : Scan σ => s.world = w) (fun _ _ => True) (fun _ => Placed.source)
    (f := placeLeaf none none) (g := Tree.leaf) t (fun l hl s hs => by
      cases l with
      | scalar v => exact ⟨_, s, rfl, hs, Tree.settled_leaf trivial rfl, fun b hb => ⟨hb, rfl⟩⟩
      | blobRef ref => exact ⟨_, s, rfl, hs, Tree.settled_leaf trivial rfl, fun b hb => ⟨hb, rfl⟩⟩
      | ndarray a =>
        have hrun := placeLeaf_inline (hvalid a (mem_arraysOf.mpr hl)) (rfl : externalStore
          (none : Option (BlobStore σ)) none a = none) s
        exact ⟨_, _, hrun, hs, Tree.settled_leaf trivial rfl, fun b hb => ⟨hb, rfl⟩⟩)
    (s := ⟨w, [], 0⟩) rfl
  refine ⟨pt, s, hrun, hworld, ?_⟩
  rw [hsettled.2]
  exact Tree.map_id t

/-! ## Resolving the places of a container -/

def Placed.resolved (base : ℤ) (dataStart : ℕ) : Placed → Leaf
  | .scalar s => .scalar s
  | .inline relOffset a => .ndarray (decodedView base dataStart relOffset a)
  | .external ref => .blobRef ref

section Resolved
variable {m m₀ : Mem} {binary : Buffer} {a : Analysis} {R : Runtime}

theorem content_decodedView (h : Holds m binary a m₀) {relOffset : ℕ} {node : NdArray}
    (hmem : (relOffset, node) ∈ a.arrays) :
    (decodedView binary.base a.dataStart relOffset node).content m = node.content m₀ := by
  have hbytes : (decodedView binary.base a.dataStart relOffset node).tobytes m =
      node.tobytes m₀ := by
    rw [NdArray.tobytes_contiguous m (decodedView_isCContiguous ..)]
    exact array_container h hmem
  rw [NdArray.content, NdArray.content, hbytes]
  rfl

/-- The leaves a model without blob references is placed with. -/
def Placed.InlineIn (R : Runtime) (arrays : List (ℕ × NdArray)) : Placed → Prop
  | .scalar _ => True
  | .inline relOffset node => (relOffset, node) ∈ arrays ∧ Supported R node
  | .external _ => False

/-- The views do not depend on what the DATA section holds. -/
theorem restorePlaced_framed {blobStore : Option (BlobStore σ)} {w : World σ}
    (h : Framed m binary a) {p : Placed} (hp : p.InlineIn R a.arrays) :
    restorePlaced R binary a.dataStart a.dataBytes blobStore p w =
      .ok (.leaf (p.resolved binary.base a.dataStart)) w := by
  cases p with
  | scalar s => rfl
  | external ref => exact hp.elim
  | inline relOffset node =>
    obtain ⟨hmem, hsupported⟩ := hp
    have hin := (h.laid.mem_bounds hmem).2
    have hroom := (le_totalSize a).trans h.room
    have hview := restoreBin_binFields hsupported.dtype_str hsupported.valid
      hsupported.itemsize_pos hin hroom
    rw [restorePlaced, Placed.reference, restoreReference,
      bind_ok (fromExcept_eq_ok.mpr ⟨hview, rfl⟩)]
    rfl

theorem restorePlaced_inline {blobStore : Option (BlobStore σ)} {w : World σ}
    (h : Holds w.mem binary a m₀) {p : Placed} (hp : p.InlineIn R a.arrays) :
    restorePlaced R binary a.dataStart a.dataBytes blobStore p w =
      .ok (.leaf (p.resolved binary.base a.dataStart)) w :=
  restorePlaced_framed h.framed hp

theorem observe_resolved (h : Holds m binary a m₀) {p : Placed} (hp : p.InlineIn R a.arrays) :
    (p.resolved binary.base a.dataStart).observe m = p.source.observe m₀ := by
  cases p with
  | scalar s => rfl
  | external ref => exact hp.elim
  | inline relOffset node => exact congrArg LeafValue.array (content_decodedView h hp.1)

/-- Decoding the container of a placed tree resolves its leaves in place. -/
theorem decodeAuto_placed {blobStore : Option (BlobStore σ)} {w : World σ}
    (h : Framed w.mem binary a) {pt : Tree Placed} (hmarkers : NoMarkers pt)
    (hjson : R.fromJson a.metadataJson = .ok (pt.subst Placed.render)) (writeable : Bool) :
    decodeAuto R (.array binary.toArray writeable) blobStore w = (do
      let tree ← Tree.bindM (restorePlaced R binary a.dataStart a.dataBytes blobStore) pt
      fromExcept (topLevel tree)) w := by
  rw [decodeAuto_container h hjson,
    restoreTree_render R binary a.dataStart a.dataBytes blobStore pt hmarkers.notReference]

end Resolved

/-! ## Unresolved references -/

theorem anyUnresolved_eq (xs : List (Tree Leaf)) :
    anyUnresolved xs = xs.any containsUnresolvedBlobRef := by
  induction xs with
  | nil => rfl
  | cons x xs ih => rw [anyUnresolved, ih, List.any_cons]

theorem anyUnresolvedItem_eq (kvs : List (String × Tree Leaf)) :
    anyUnresolvedItem kvs = kvs.any fun kv => containsUnresolvedBlobRef kv.2 := by
  induction kvs with
  | nil => rfl
  | cons kv kvs ih => rw [anyUnresolvedItem, ih, List.any_cons]

theorem containsUnresolvedBlobRef_iff (t : Tree Leaf) :
    containsUnresolvedBlobRef t = true ↔ ∃ ref, Leaf.blobRef ref ∈ t.leaves := by
  induction t with
  | leaf l => cases l <;> simp [containsUnresolvedBlobRef]
  | list xs ih =>
    rw [containsUnresolvedBlobRef, anyUnresolved_eq, List.any_eq_true, Tree.leaves_list]
    constructor
    · rintro ⟨x, hx, h⟩
      obtain ⟨ref, href⟩ := (ih x hx).mp h
      exact ⟨ref, List.mem_flatMap.mpr ⟨x, hx, href⟩⟩
    · rintro ⟨ref, href⟩
      obtain ⟨x, hx, href⟩ := List.mem_flatMap.mp href
      exact ⟨x, hx, (ih x hx).mpr ⟨ref, href⟩⟩
  | dict kvs ih =>
    rw [containsUnresolvedBlobRef, anyUnresolvedItem_eq, List.any_eq_true, Tree.leaves_dict]
    constructor
    · rintro ⟨kv, hkv, h⟩
      obtain ⟨ref, href⟩ := (ih kv hkv).mp h
      exact ⟨ref, List.mem_flatMap.mpr ⟨kv, hkv, href⟩⟩
    · rintro ⟨ref, href⟩
      obtain ⟨kv, hkv, href⟩ := List.mem_flatMap.mp href
      exact ⟨kv, hkv, (ih kv hkv).mpr ⟨ref, href⟩⟩

/-! ## The round trip -/

theorem topLevel_map {α β : Type} {t : Tree α} {g : α → β} {fields : List (String × Tree β)}
    (h : t.map g = .dict fields) (f : α → Leaf) :
    ∃ kvs, t.map f = .dict kvs ∧ topLevel (t.map f) = .ok kvs := by
  obtain ⟨items, rfl⟩ := Tree.eq_dict_of_map h
  refine ⟨_, Tree.subst_dict _ _, ?_⟩
  rw [Tree.map, Tree.subst_dict, topLevel]

/-- The manifest survives `to_json` and `from_json`, and its length fits the header. -/
def MetadataRoundTrips (R : Runtime) (blobStore : Option (BlobStore σ))
    (externalizeMinBytes : Option ℤ) (model : Model) (w : World σ) : Prop :=
  ∀ manifest arrays n w₁,
    buildManifest blobStore externalizeMinBytes model.modelDump w = .ok (manifest, arrays, n) w₁ →
    ∃ metadataJson, R.toJson jsonFallback manifest = .ok metadataJson ∧
      R.fromJson metadataJson = .ok manifest ∧ metadataJson.length < 2 ^ 32

theorem analyzeModel_inline {R : Runtime} {model : Model} {w : World σ} {schemaId : UUID}
    {schemaVersion : ℕ} (hid : schemaIdentity model.cls = .ok (schemaId, schemaVersion))
    (hvalid : ∀ node ∈ arraysOf model.tree, validateNdarray node = .ok ())
    (hjson : MetadataRoundTrips R none none model w) :
    ∃ (a : Analysis) (pt : Tree Placed), analyzeModel R model none none w = .ok a w ∧
      a.schemaId = schemaId ∧
      a.schemaVersion = schemaVersion ∧ a.metadataJson.length < 2 ^ 32 ∧
      R.fromJson a.metadataJson = .ok (pt.subst Placed.render) ∧
      pt.map Placed.source = model.tree ∧
      (∀ relOffset node, Placed.inline relOffset node ∈ pt.leaves → (relOffset, node) ∈ a.arrays) ∧
      ∀ relOffset node, (relOffset, node) ∈ a.arrays → node ∈ arraysOf model.tree := by
  obtain ⟨pt, s, hplace, hworld, hsource⟩ := placeTree_inline hvalid w
  obtain ⟨hlaid, hinline⟩ := placeTree_laidOut hplace
  have hbuild : buildManifest none none model.modelDump w =
      .ok (pt.subst Placed.render, s.arrays, s.cursor) s.world := by
    rw [buildManifest_run, ← Model.tree, hplace]
  obtain ⟨metadataJson, hto, hfrom, hlen⟩ := hjson _ _ _ _ hbuild
  refine ⟨⟨schemaId, schemaVersion, s.cursor, alignUp (headerSize + metadataJson.length) frameSize,
    s.arrays, metadataJson⟩, pt, ?_, rfl, rfl, hlen, hfrom, hsource, hinline,
    fun relOffset node h => (hlaid.source relOffset node h).1⟩
  exact analyzeModel_ok.mpr ⟨schemaId, schemaVersion, pt, s, metadataJson, hid, rfl, hplace, hto,
    rfl, hworld.symm⟩

/-- Encoding a model without blob references and decoding the result gives the model's tree back,
and typed decoding hands this tree to `model_validate`. -/
theorem encode_roundTrip {R : Runtime} {model : Model} {w : World σ} {out : Option Argument}
    {schemaId : UUID} {schemaVersion : ℕ}
    (hid : schemaIdentity model.cls = .ok (schemaId, schemaVersion))
    (hversion : schemaVersion < 2 ^ 32)
    (hleaves : ∀ l ∈ model.tree.leaves,
      (∃ s, l = .scalar s) ∨ ∃ node, l = .ndarray node ∧ Supported R node)
    (hmarkers : NoMarkers model.tree)
    (hjson : MetadataRoundTrips R none none model w)
    (hout : ∀ a w₁, analyzeModel R model none none w = .ok a w₁ →
      ProvidesOutput R out a.totalSize (arraysOf model.tree) w₁) :
    ∃ binary w', encode R model out none none w = .ok binary w' ∧
      ∀ (blobStore : Option (BlobStore σ)) (writeable : Bool), ∃ kvs,
        decodeAuto R (.array binary.toArray writeable) blobStore w' = .ok kvs w' ∧
        (Tree.dict kvs).map (Leaf.observe w'.mem) = model.tree.map (Leaf.observe w.mem) ∧
        ∀ (α : Type) (modelValidate : List (String × Tree Leaf) → Py σ α),
          decode R model.cls modelValidate (.array binary.toArray writeable) blobStore w' =
            modelValidate kvs w' := by
  have hsupported : ∀ node ∈ arraysOf model.tree, Supported R node := by
    intro node hnode
    obtain ⟨s, hs⟩ | ⟨node', hnode', h⟩ := hleaves _ (mem_arraysOf.mp hnode)
    · cases hs
    · cases hnode'
      exact h
  obtain ⟨a, pt, ha, rfl, rfl, hmeta, hfrom, hsource, hinline, harrays⟩ :=
    analyzeModel_inline hid (fun node hnode => (hsupported node hnode).valid) hjson
  obtain ⟨binary, w₂, hacquire, hdisjoint⟩ := hout a w ha
  obtain ⟨hsize, hmem, -, -⟩ := acquireOutput_ok hacquire
  have hlt := binary.size_lt
  obtain ⟨header, hhead⟩ := (packHeader_isOk_iff a).mpr ⟨hversion, hmeta, by omega⟩
  obtain ⟨hl, hstart⟩ := analyzeModel_laid ha
  obtain ⟨w', hrun, hholds, -, -, -⟩ := encode_holds ha hhead hacquire
    (sourcesSurvive_of_output hhead hl hstart hsize fun relOffset node h =>
      hdisjoint node (harrays relOffset node h))
  rw [hmem] at hholds
  have hplaced : ∀ p ∈ pt.leaves, p.InlineIn R a.arrays := by
    intro p hp
    have hleaf : p.source ∈ model.tree.leaves := by
      rw [← hsource, Tree.leaves_map]
      exact List.mem_map_of_mem hp
    cases p with
    | scalar s => trivial
    | inline relOffset node => exact ⟨hinline _ _ hp, hsupported node (mem_arraysOf.mpr hleaf)⟩
    | external ref =>
      obtain ⟨s, hs⟩ | ⟨node, hnode, -⟩ := hleaves _ hleaf
      · cases hs
      · cases hnode
  refine ⟨binary, w', hrun, fun blobStore writeable => ?_⟩
  obtain ⟨kvs, hkvs, htop⟩ := topLevel_map hsource (Placed.resolved binary.base a.dataStart)
  have hbind : Tree.bindM (restorePlaced R binary a.dataStart a.dataBytes blobStore) pt w' =
      .ok (pt.map (Placed.resolved binary.base a.dataStart)) w' :=
    Tree.bindM_pure pt fun p hp => restorePlaced_inline hholds (hplaced p hp)
  have hauto : decodeAuto R (.array binary.toArray writeable) blobStore w' = .ok kvs w' := by
    have hpt : NoMarkers pt := by rwa [← hsource, noMarkers_map] at hmarkers
    rw [decodeAuto_placed hholds.framed hpt hfrom, bind_ok hbind]
    exact fromExcept_eq_ok.mpr ⟨htop, rfl⟩
  refine ⟨kvs, hauto, ?_, fun α modelValidate => ?_⟩
  · rw [← hkvs, ← hsource, Tree.map_map, Tree.map_map]
    exact Tree.map_congr pt fun p hp => observe_resolved hholds (hplaced p hp)
  · refine decode_container hholds.framed hid hauto ?_
    rw [← hkvs, Bool.eq_false_iff, Ne, containsUnresolvedBlobRef_iff, Tree.leaves_map]
    rintro ⟨ref, href⟩
    obtain ⟨p, hp, hpref⟩ := List.mem_map.mp href
    have hin := hplaced p hp
    cases p with
    | scalar s => cases hpref
    | inline relOffset node => cases hpref
    | external ref' => exact hin

section Fields

def fieldModel (a : NdArray) : Model where
  cls := ⟨"OneArray", some ⟨Vector.replicate 16 7⟩, some 1⟩
  fields := [("x", .leaf (.ndarray a))]

def inlineText (nbytes dtype : String) : String :=
  "\x7b\"x\":\x7b\"$bin\":\x7b\"kind\":\"ndarray\",\"offset\":0,\"nbytes\":" ++ nbytes ++
    ",\"dtype\":\"" ++ dtype ++ "\",\"shape\":[1]\x7d\x7d\x7d"

/-- An array of one element of the empty type `|V0`. -/
def voidElement : NdArray := .cArray 0 ⟨"|V0", 0, false, false⟩ [1] (by decide)

theorem not_touches_voidElement (x : ℤ) : ¬ voidElement.Touches x := by
  rintro ⟨o, -, hlo, hhi⟩
  have hitem : voidElement.dtype.itemsize = 0 := rfl
  rw [hitem] at hhi
  omega

end Fields

section OneArray

/-- A `float64` array of one element at address 0. -/
def oneElement : NdArray := .cArray 0 float64 [1] (by decide)

/-- Two elements, the 16 bytes after `oneElement`. -/
def twoElements : NdArray := .cArray 8 float64 [2] (by decide)

def oneArray : Model where
  cls := ⟨"OneArray", some ⟨Vector.replicate 16 7⟩, some 1⟩
  fields := [("x", .leaf (.ndarray oneElement))]

def oneArrayText : String :=
  "\x7b\"x\":\x7b\"$bin\":\x7b\"kind\":\"ndarray\",\"offset\":0,\"nbytes\":8," ++
    "\"dtype\":\"<f8\",\"shape\":[1]\x7d\x7d\x7d"

def oneArrayRuntime : Runtime :=
  .ofDocument (.dict [("x", binManifest 0 oneElement)]) oneArrayText 4096

def oneArrayWorld : World Unit := ⟨fun x => UInt8.ofInt x, fun x => decide (0 ≤ x ∧ x < 8), ()⟩

def oneArrayAnalysis : Analysis where
  schemaId := ⟨Vector.replicate 16 7⟩
  schemaVersion := 1
  dataBytes := 8
  dataStart := alignUp (headerSize + (asciiBytes oneArrayText).length) frameSize
  arrays := [(0, oneElement)]
  metadataJson := asciiBytes oneArrayText

theorem analyzeModel_oneArray (w : World Unit) :
    analyzeModel oneArrayRuntime oneArray none none w = .ok oneArrayAnalysis w := by
  have hoffset : alignUp 0 arrayAlignment = 0 := by decide
  have hnbytes : oneElement.nbytes = 8 := by decide
  have hplace : placeTree none none oneArray.tree ⟨w, [], 0⟩ =
      .ok (.dict [("x", .leaf (.inline (alignUp 0 arrayAlignment) oneElement))])
        ⟨w, [(alignUp 0 arrayAlignment, oneElement)],
          alignUp 0 arrayAlignment + oneElement.nbytes⟩ := rfl
  rw [hoffset, hnbytes] at hplace
  exact analyzeModel_ok.mpr ⟨_, _, _, _, _, rfl, rfl, hplace, rfl, rfl, rfl⟩

theorem totalSize_oneArray : oneArrayAnalysis.totalSize = 131072 := by decide +kernel

theorem leaves_oneArray : oneArray.tree.leaves = [.ndarray oneElement] := rfl

theorem mem_arraysOf_oneArray {node : NdArray} (h : node ∈ arraysOf oneArray.tree) :
    node = oneElement := by
  rw [mem_arraysOf, leaves_oneArray, List.mem_singleton] at h
  cases h
  rfl

theorem touches_oneElement {x : ℤ} (hx : oneElement.Touches x) : 0 ≤ x ∧ x < 8 := by
  have h := NdArray.touches_contiguous (a := oneElement) (by decide) hx
  have hn : oneElement.nbytes = 8 := by decide
  have hd : oneElement.data = 0 := rfl
  rw [hn, hd] at h
  omega

theorem providesOutput_oneArray :
    ProvidesOutput oneArrayRuntime none 131072 (arraysOf oneArray.tree) oneArrayWorld := by
  refine providesOutput_none ⟨by decide, 4096, rfl, ?_⟩ ?_
  · intro x hlo hhi
    exact decide_eq_false (by omega)
  · intro node hnode x hx
    rw [mem_arraysOf_oneArray hnode] at hx
    exact decide_eq_true (touches_oneElement hx)

theorem encode_roundTrip_oneArray :
    ∃ binary w', encode oneArrayRuntime oneArray none none none oneArrayWorld = .ok binary w' ∧
      ∀ (blobStore : Option (BlobStore Unit)) (writeable : Bool), ∃ kvs,
        decodeAuto oneArrayRuntime (.array binary.toArray writeable) blobStore w' = .ok kvs w' ∧
        (Tree.dict kvs).map (Leaf.observe w'.mem) =
          oneArray.tree.map (Leaf.observe oneArrayWorld.mem) ∧
        ∀ (α : Type) (modelValidate : List (String × Tree Leaf) → Py Unit α),
          decode oneArrayRuntime oneArray.cls modelValidate (.array binary.toArray writeable)
            blobStore w' = modelValidate kvs w' := by
  refine encode_roundTrip (R := oneArrayRuntime) rfl (by decide) ?_ ?_ ?_ ?_
  · intro l hl
    rw [leaves_oneArray, List.mem_singleton] at hl
    exact .inr ⟨oneElement, hl, rfl, by decide, rfl⟩
  · exact ⟨⟨by decide, by decide⟩, trivial, trivial⟩
  · intro manifest arrays n w₁ h
    cases h
    exact ⟨_, rfl, Runtime.fromJson_ofDocument .., by decide +kernel⟩
  · intro a w₁ h
    cases (analyzeModel_oneArray oneArrayWorld).symm.trans h
    rw [totalSize_oneArray]
    exact providesOutput_oneArray

end OneArray

end Npb
