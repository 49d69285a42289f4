import Npb.Codec.StoreLaws

/-! # Externalisation

Encoding with a store and a threshold moves the arrays at or above the threshold into the store and
lays out the others as if they were alone. What the decoder makes of the container does not depend
on it (`externalise_transparent`). -/

namespace Npb
set_option autoImplicit false
open Effects Numpy

variable {σ : Type}

/-! ## Where a leaf is stored -/

inductive Storage where
  | scalar
  | inline
  | external
  deriving DecidableEq

def Placed.storage : Placed → Storage
  | .scalar _ => .scalar
  | .inline .. => .inline
  | .external _ => .external

/-- Arrays of at least `t` bytes are stored externally. -/
def Leaf.storage (t : ℤ) : Leaf → Storage
  | .scalar _ => .scalar
  | .ndarray a => if t ≤ a.nbytes then .external else .inline
  | .blobRef _ => .external

/-! ## The layout of the arrays that stay -/

theorem Laid.unique {c d e : ℕ} {xs ys : List (ℕ × NdArray)} (hx : Laid c xs d) (hy : Laid c ys e)
    (hsame : xs.map Prod.snd = ys.map Prod.snd) : xs = ys ∧ d = e := by
  induction xs generalizing c ys with
  | nil =>
    cases ys with
    | nil =>
      have hd : d = c := hx
      have he : e = c := hy
      exact ⟨rfl, hd.trans he.symm⟩
    | cons y ys => cases hsame
  | cons x xs ih =>
    cases ys with
    | nil => cases hsame
    | cons y ys =>
      obtain ⟨relOffset, a⟩ := x
      obtain ⟨relOffset', a'⟩ := y
      obtain ⟨rfl, hrest⟩ := List.cons.inj hsame
      obtain ⟨hoff, hx⟩ := hx
      obtain ⟨hoff', hy⟩ := hy
      obtain rfl : relOffset = relOffset' := hoff.trans hoff'.symm
      obtain ⟨hxs, hd⟩ := ih hx hy hrest
      exact ⟨by rw [hxs], hd⟩

section Trace
variable {blobStore : Option (BlobStore σ)} {externalizeMinBytes : Option ℤ}

/-- The arrays that stay inline, among the leaves. -/
def inlineArrays (blobStore : Option (BlobStore σ)) (externalizeMinBytes : Option ℤ)
    (ls : List Leaf) : List NdArray :=
  (ls.filterMap Leaf.array?).filter fun a =>
    (externalStore blobStore externalizeMinBytes a).isNone

theorem placeTree_inlineArrays {t : Tree Leaf} {w : World σ} {pt : Tree Placed} {s : Scan σ}
    (h : placeTree blobStore externalizeMinBytes t ⟨w, [], 0⟩ = .ok pt s) :
    s.arrays.map Prod.snd = inlineArrays blobStore externalizeMinBytes t.leaves := by
  have htrace := Tree.bindM_trace (T := fun ls _ (s s' : Scan σ) => s'.arrays.map Prod.snd =
      s.arrays.map Prod.snd ++ inlineArrays blobStore externalizeMinBytes ls)
    (fun s => by simp [inlineArrays])
    (fun xs ys _ _ s₁ s₂ s₃ h₁ h₂ => by
      rw [h₂, h₁, inlineArrays, inlineArrays, inlineArrays, List.filterMap_append,
        List.filter_append, List.append_assoc]) t
    (fun l s y s' hrun => by
      rcases placeLeaf_ok hrun with ⟨v, rfl, rfl, rfl⟩ | ⟨ref, rfl, rfl, rfl⟩ |
        ⟨a, store, ref, w', rfl, -, hstore, -, rfl, rfl⟩ | ⟨a, rfl, -, hnone, rfl, rfl⟩
      · simp [inlineArrays, Leaf.array?]
      · simp [inlineArrays, Leaf.array?]
      · simp [inlineArrays, Leaf.array?, hstore]
      · simp [inlineArrays, Leaf.array?, hnone]) h
  simpa using htrace

/-- `put_array` is called once for each array the threshold picks out, in document order. -/
theorem placeTree_puts {store : BlobStore σ} {t : ℤ} {tree : Tree Leaf} {w : World σ}
    {pt : Tree Placed} {s : Scan σ}
    (h : placeTree (some store) (some t) tree ⟨w, [], 0⟩ = .ok pt s) :
    ∃ refs, ((arraysOf tree).filter fun a => t ≤ a.nbytes).mapM store.putArray w =
      .ok refs s.world := by
  have hexternal : ∀ a, externalStore (some store) (some t) a =
      if t ≤ a.nbytes then some store else none := fun a => rfl
  refine Tree.bindM_trace (T := fun ls _ (s s' : Scan σ) => ∃ refs,
      ((ls.filterMap Leaf.array?).filter fun a => t ≤ a.nbytes).mapM store.putArray s.world =
        .ok refs s'.world)
    (fun s => ⟨[], rfl⟩)
    (fun xs ys _ _ s₁ s₂ s₃ h₁ h₂ => ?_) tree
    (fun l s y s' hrun => ?_) h
  · obtain ⟨refs₁, h₁⟩ := h₁
    obtain ⟨refs₂, h₂⟩ := h₂
    rw [List.filterMap_append, List.filter_append, List.mapM_append, bind_ok h₁, bind_ok h₂]
    exact ⟨_, rfl⟩
  · rcases placeLeaf_ok hrun with ⟨v, rfl, rfl, rfl⟩ | ⟨ref, rfl, rfl, rfl⟩ |
      ⟨a, store', ref, w', rfl, -, hstore, hput, rfl, rfl⟩ | ⟨a, rfl, -, hnone, rfl, rfl⟩
    · exact ⟨[], rfl⟩
    · exact ⟨[], rfl⟩
    · rw [hexternal] at hstore
      split at hstore
      · next hle =>
        cases hstore
        refine ⟨[ref], ?_⟩
        simp only [Leaf.array?, List.filterMap_cons, List.filterMap_nil, List.filter_cons, hle,
          decide_true, if_true, List.filter_nil, List.mapM_cons, List.mapM_nil]
        rw [bind_ok hput]
        rfl
      · cases hstore
    · rw [hexternal] at hnone
      split at hnone
      · cases hnone
      · next hlt =>
        refine ⟨[], ?_⟩
        simp only [Leaf.array?, List.filterMap_cons, List.filterMap_nil, List.filter_cons, hlt,
          decide_false, List.filter_nil]
        rfl

end Trace

/-! ## Placing with a lawful store -/

section Lawful
variable {R : Runtime} {store : BlobStore σ} {valid : World σ → Prop}
  {denotes : World σ → BlobRef → Option NdArray.Content}
  {blobStore : Option (BlobStore σ)} {externalizeMinBytes : Option ℤ}

/-- A leaf's place under these arguments of `encode`. -/
def Leaf.placedAs (blobStore : Option (BlobStore σ)) (externalizeMinBytes : Option ℤ) :
    Leaf → Storage
  | .scalar _ => .scalar
  | .ndarray a =>
    if (externalStore blobStore externalizeMinBytes a).isSome then .external else .inline
  | .blobRef _ => .external

/-- Placing succeeds, and the places stand for what the leaves are. -/
theorem placeTree_lawful (hstore : store.Lawful valid denotes R)
    (hsame : ∀ s, blobStore = some s → s = store) {t : Tree Leaf} {w : World σ} (hw : valid w)
    (hleaves : ∀ l ∈ t.leaves, l.Placeable denotes R store blobStore externalizeMinBytes w) :
    ∃ pt s, placeTree blobStore externalizeMinBytes t ⟨w, [], 0⟩ = .ok pt s ∧
      Kept valid denotes w s.world ∧
      (∀ p ∈ pt.leaves, p.source.Storable denotes R store s.world) ∧
      pt.map (fun p => (p.source.denoted denotes s.world, p.storage)) =
        t.map fun l => (l.denoted denotes w, l.placedAs blobStore externalizeMinBytes) := by
  obtain ⟨pt, s, hrun, hkept, ⟨hstorable, hmap⟩, -⟩ := Tree.bindM_observe
    (I := fun s : Scan σ => Kept valid denotes w s.world)
    (fun s p => p.source.Storable denotes R store s.world)
    (fun s p => (p.source.denoted denotes s.world, p.storage))
    (f := placeLeaf blobStore externalizeMinBytes)
    (g := fun l => .leaf (l.denoted denotes w, l.placedAs blobStore externalizeMinBytes)) t
    (fun l hl s hs => by
      have hleaf := hleaves l hl
      cases l with
      | scalar v =>
        exact ⟨_, s, rfl, hs, Tree.settled_leaf trivial rfl, fun b hb => ⟨hb, rfl⟩⟩
      | blobRef ref =>
        obtain ⟨hsome, hsame⟩ := hs.denoted hleaf.2
        exact ⟨_, s, rfl, hs, Tree.settled_leaf (b := Placed.external ref) ⟨hleaf.1, hsome⟩
          (congrArg (fun c => (c, Storage.external)) hsame), fun b hb => ⟨hb, rfl⟩⟩
      | ndarray a =>
        obtain ⟨hencodable, hheld₀, hpos⟩ := hleaf
        obtain ⟨hheld, hcontent⟩ := hs.memory.holds hheld₀
        cases hext : externalStore blobStore externalizeMinBytes a with
        | none =>
          refine ⟨_, _, placeLeaf_inline hencodable.valid hext s, hs, Tree.settled_leaf
            ⟨⟨hencodable.valid, hpos hext, hencodable.dtype_str⟩, hheld⟩ ?_,
            fun b hb => ⟨hb, rfl⟩⟩
          rw [Leaf.placedAs, hext]
          exact congrArg (fun c => (LeafValue.array c, Storage.inline)) hcontent
        | some store' =>
          obtain rfl := hsame store' (externalStore_eq_some hext)
          obtain ⟨ref, w', hput, hkept, hof, hdenotes⟩ :=
            hstore.put s.world a hs.valid hencodable hheld
          have hsome : (denotes w' ref).isSome = true := by rw [hdenotes]; rfl
          refine ⟨_, _, placeLeaf_external hencodable.valid hext hput, hs.trans hkept,
            Tree.settled_leaf ⟨hof, hsome⟩ ?_, fun b hb => ?_⟩
          · rw [Leaf.placedAs, hext, Placed.source, Leaf.denoted, BlobRef.denoted, hdenotes]
            exact congrArg (fun c => (LeafValue.array c, Storage.external)) hcontent
          · obtain ⟨hb', hsame'⟩ := hkept.storable hb
            exact ⟨hb', by rw [hsame']⟩)
    (s := ⟨w, [], 0⟩) (.refl hw)
  exact ⟨pt, s, hrun, hkept, hstorable, hmap⟩

/-! ## Encoding and decoding with a lawful store -/

section Decode
variable {binary : Buffer} {a : Analysis} {m₀ : Mem} {w : World σ}

/-- Restoring a placed leaf gives what it stands for. -/
theorem restorePlaced_lawful (hstore : store.Lawful valid denotes R)
    (hholds : Holds w.mem binary a m₀) (hlive : ∀ x, binary.Contains x → w.live x = true)
    {decodeStore : Option (BlobStore σ)} {p : Placed}
    (hstorable : p.source.Storable denotes R store w)
    (hinline : ∀ relOffset node, p = .inline relOffset node → (relOffset, node) ∈ a.arrays ∧
      node.content m₀ = node.content w.mem)
    (hdecode : ∀ ref, p = .external ref → decodeStore = some store) {v : World σ}
    (hv : Kept valid denotes w v) :
    ∃ l v', restorePlaced R binary a.dataStart a.dataBytes decodeStore p v = .ok (.leaf l) v' ∧
      Kept valid denotes v v' ∧ l.Held v' ∧ l.observe v'.mem = p.source.denoted denotes w := by
  cases p with
  | scalar s => exact ⟨.scalar s, v, rfl, .refl hv.valid, trivial, rfl⟩
  | inline relOffset node =>
    obtain ⟨hmem, hcontent⟩ := hinline relOffset node rfl
    obtain ⟨hsupported, -⟩ := hstorable
    have hview := restoreBin_binFields hsupported.dtype_str hsupported.valid
      hsupported.itemsize_pos (hholds.laid.mem_bounds hmem).2
      ((le_totalSize a).trans hholds.room)
    obtain ⟨hheld, hsame⟩ := hv.memory.holds (holds_decodedView hholds hlive hmem)
    refine ⟨.ndarray (decodedView binary.base a.dataStart relOffset node), v, ?_, .refl hv.valid,
      hheld, ?_⟩
    · exact (bind_ok (fromExcept_eq_ok.mpr ⟨hview, rfl⟩) _).trans rfl
    · rw [Leaf.observe, hsame, content_decodedView hholds hmem, hcontent]
      rfl
  | external ref =>
    obtain ⟨hof, hsome⟩ := hstorable
    obtain rfl := hdecode ref rfl
    obtain ⟨c, hc⟩ := Option.isSome_iff_exists.mp hsome
    obtain ⟨b, v', hget, hkept, hheld, hcontent⟩ :=
      hstore.get v ref c hv.valid (hv.content ref c hc)
    have hrestore : restoreBlob R (some store) ref.toManifest v = .ok (.ndarray b) v' := by
      have hparse : catching PyError.isTypeOrValueError
          (.formatError "invalid external blob reference")
          (BlobRef.fromManifest R ref.toManifest) = .ok ref := by
        rw [BlobRef.fromManifest_toManifest, hof.wellFormed, catching_ok]
      refine (bind_ok (fromExcept_eq_ok.mpr ⟨hparse, rfl⟩) _).trans ?_
      refine (bind_ok (fromExcept_eq_ok.mpr
        ⟨raiseIf_eq_ok.mpr (not_not.mpr hof.kind.symm), rfl⟩) _).trans ?_
      exact (bind_ok hget _).trans rfl
    refine ⟨.ndarray b, v', (bind_ok hrestore _).trans rfl, hkept, hheld, ?_⟩
    rw [Leaf.observe, hcontent, Placed.source, Leaf.denoted, BlobRef.denoted, hc]

theorem decodeAuto_lawful (hstore : store.Lawful valid denotes R) (hw : valid w)
    (hholds : Holds w.mem binary a m₀) (hlive : ∀ x, binary.Contains x → w.live x = true)
    {pt : Tree Placed} (hmarkers : NoMarkers pt)
    (hjson : R.fromJson a.metadataJson = .ok (pt.subst Placed.render))
    (hstorable : ∀ p ∈ pt.leaves, p.source.Storable denotes R store w)
    (hinline : ∀ relOffset node, Placed.inline relOffset node ∈ pt.leaves →
      (relOffset, node) ∈ a.arrays ∧ node.content m₀ = node.content w.mem)
    {decodeStore : Option (BlobStore σ)}
    (hdecode : ∀ ref, Placed.external ref ∈ pt.leaves → decodeStore = some store)
    (hdict : ∃ items, pt = .dict items) (writeable : Bool) :
    ∃ kvs w', decodeAuto R (.array binary.toArray writeable) decodeStore w = .ok kvs w' ∧
      (Tree.dict kvs).map (Leaf.observe w'.mem) = pt.map fun p => p.source.denoted denotes w := by
  obtain ⟨tree, w', hrun, hkept, ⟨-, hmap⟩, -⟩ := Tree.bindM_observe
    (I := Kept valid denotes w) (fun v l => l.Held v) (fun v l => l.observe v.mem)
    (f := restorePlaced R binary a.dataStart a.dataBytes decodeStore)
    (g := fun p => .leaf (p.source.denoted denotes w)) pt
    (fun p hp v hv => by
      obtain ⟨l, v', hrun, hkept, hheld, hobserve⟩ := restorePlaced_lawful hstore hholds hlive
        (hstorable p hp) (fun relOffset node e => hinline relOffset node (e ▸ hp))
        (fun ref e => hdecode ref (e ▸ hp)) hv
      exact ⟨.leaf l, v', hrun, hv.trans hkept, Tree.settled_leaf hheld hobserve,
        fun b hb => hkept.memory.held hb⟩)
    (.refl hw)
  obtain ⟨items, hitems⟩ := hdict
  have hmapped : tree.map (Leaf.observe w'.mem) = pt.map fun p => p.source.denoted denotes w := hmap
  obtain ⟨kvs, rfl⟩ : ∃ kvs, tree = .dict kvs := by
    rw [hitems, Tree.map_dict] at hmapped
    exact Tree.eq_dict_of_map hmapped
  refine ⟨kvs, w', ?_, hmapped⟩
  rw [decodeAuto_placed hholds.framed hmarkers hjson, bind_ok hrun]
  exact fromExcept_eq_ok.mpr ⟨topLevel_eq_ok.mpr rfl, rfl⟩

end Decode

section Encode
variable {model : Model} {w : World σ} {schemaId : UUID} {schemaVersion : ℕ}

/-- Encoding into fresh memory, and decoding what comes out. -/
theorem roundTrip_lawful (hstore : store.Lawful valid denotes R)
    (hsame : ∀ s, blobStore = some s → s = store) (hw : valid w)
    (hid : schemaIdentity model.cls = .ok (schemaId, schemaVersion))
    (hversion : schemaVersion < 2 ^ 32)
    (hthreshold : checkThreshold blobStore externalizeMinBytes = .ok ())
    (hleaves : ∀ l ∈ model.tree.leaves,
      l.Placeable denotes R store blobStore externalizeMinBytes w)
    (hmarkers : NoMarkers model.tree)
    (hjson : MetadataRoundTrips R blobStore externalizeMinBytes model w)
    (hout : ∀ a w₁, analyzeModel R model blobStore externalizeMinBytes w = .ok a w₁ →
      R.Allocates w₁.live a.totalSize) :
    ∃ pt s a binary w',
      placeTree blobStore externalizeMinBytes model.tree ⟨w, [], 0⟩ = .ok pt s ∧
      analyzeModel R model blobStore externalizeMinBytes w = .ok a s.world ∧
      a.arrays = s.arrays ∧ a.dataBytes = s.cursor ∧
      R.fromJson a.metadataJson = .ok (pt.subst Placed.render) ∧
      pt.map Placed.storage = model.tree.map (Leaf.placedAs blobStore externalizeMinBytes) ∧
      encode R model none blobStore externalizeMinBytes w = .ok binary w' ∧
      ∀ (decodeStore : Option (BlobStore σ)) (writeable : Bool), (decodeStore = some store ∨
          ∀ l ∈ model.tree.leaves, l.placedAs blobStore externalizeMinBytes ≠ .external) →
        ∃ kvs w'', decodeAuto R (.array binary.toArray writeable) decodeStore w' = .ok kvs w'' ∧
          (Tree.dict kvs).map (Leaf.observe w''.mem) = model.tree.map (Leaf.denoted denotes w) := by
  obtain ⟨pt, s, hplace, hkept, hstorable, hmap⟩ := placeTree_lawful hstore hsame hw hleaves
  have hdenoted : pt.map (fun p => p.source.denoted denotes s.world) =
      model.tree.map (Leaf.denoted denotes w) := by
    have h := congrArg (Tree.map Prod.fst) hmap
    rwa [Tree.map_map, Tree.map_map] at h
  have hstorage : pt.map Placed.storage =
      model.tree.map (Leaf.placedAs blobStore externalizeMinBytes) := by
    have h := congrArg (Tree.map Prod.snd) hmap
    rwa [Tree.map_map, Tree.map_map] at h
  have hbuild : buildManifest blobStore externalizeMinBytes model.modelDump w =
      .ok (pt.subst Placed.render, s.arrays, s.cursor) s.world := by
    rw [buildManifest_run, ← Model.tree, hplace]
  obtain ⟨metadataJson, hto, hfrom, hlen⟩ := hjson _ _ _ _ hbuild
  let a : Analysis := ⟨schemaId, schemaVersion, s.cursor,
    alignUp (headerSize + metadataJson.length) frameSize, s.arrays, metadataJson⟩
  have ha : analyzeModel R model blobStore externalizeMinBytes w = .ok a s.world :=
    analyzeModel_ok.mpr ⟨schemaId, schemaVersion, pt, s, metadataJson, hid, hthreshold, hplace, hto,
      rfl, rfl⟩
  obtain ⟨hlaid, hinline⟩ := placeTree_laidOut hplace
  have hsources : ∀ relOffset node, (relOffset, node) ∈ a.arrays → s.world.Holds node := by
    intro relOffset node hmem
    have hnode := mem_arraysOf.mp (hlaid.source relOffset node hmem).1
    exact (hkept.memory.holds (hleaves _ hnode).2.1).1
  obtain ⟨hlt, p, halloc, hfresh⟩ := hout a s.world ha
  let binary : Buffer := ⟨p, a.totalSize, hlt⟩
  have hacquire : acquireOutput R a.totalSize none s.world = .ok binary _ :=
    empty_eq_ok.mpr ⟨p, hlt, halloc, rfl, rfl⟩
  obtain ⟨header, hhead⟩ := (packHeader_isOk_iff a).mpr ⟨hversion, hlen, hlt.trans (by decide)⟩
  obtain ⟨w', hrun, hholds, hlive, hworld, hframe⟩ := encode_holds ha hhead hacquire
    (sourcesSurvive_of_output hhead hlaid.laid rfl rfl fun relOffset node hmem x hx hin => by
      have hfree := hfresh x hin.1 hin.2
      rw [hsources relOffset node hmem x hx] at hfree
      cases hfree)
  have hextends : s.world.Extends w' := by
    intro x hx
    refine ⟨by rw [hlive]; simp [hx], hframe x fun hin => ?_⟩
    have hfree := hfresh x hin.1 hin.2
    rw [hx] at hfree
    cases hfree
  have hkept' : Kept valid denotes s.world w' := hstore.frame _ _ hkept.valid hextends hworld
  refine ⟨pt, s, a, binary, w', hplace, ha, rfl, rfl, hfrom, hstorage, hrun,
    fun decodeStore writeable hdecode => ?_⟩
  have hmarkers' : NoMarkers pt := by rwa [← noMarkers_map Placed.storage, hstorage, noMarkers_map]
  obtain ⟨fields, hfields⟩ : ∃ fields, model.tree = .dict fields := ⟨_, rfl⟩
  have hdict : ∃ items, pt = .dict items := by
    rw [hfields, Tree.map_dict] at hstorage
    exact Tree.eq_dict_of_map hstorage
  obtain ⟨kvs, w'', hauto, hobserved⟩ := decodeAuto_lawful hstore hkept'.valid hholds
    (fun x hx => by rw [hlive]; simp [show p ≤ x ∧ x < p + a.totalSize from hx])
    hmarkers' hfrom (fun p hp => (hkept'.storable (hstorable p hp)).1)
    (fun relOffset node hmem => by
      have hnode := hsources relOffset node (hinline relOffset node hmem)
      exact ⟨hinline relOffset node hmem, (hextends.holds hnode).2.symm⟩)
    (fun ref href => by
      obtain hdecode | hnone := hdecode
      · exact hdecode
      · have hleaf : Storage.external ∈ (pt.map Placed.storage).leaves := by
          rw [Tree.leaves_map]
          exact List.mem_map_of_mem (f := Placed.storage) href
        rw [hstorage, Tree.leaves_map] at hleaf
        obtain ⟨l, hl, hexternal⟩ := List.mem_map.mp hleaf
        exact absurd hexternal (hnone l hl))
    hdict writeable
  refine ⟨kvs, w'', hauto, hobserved.trans ?_⟩
  rw [← hdenoted]
  exact Tree.map_congr pt fun p hp => (hkept'.storable (hstorable p hp)).2

/-- What `_manifest_tree` does with a store `store` and a threshold `t`. -/
structure Externalised (R : Runtime) (store : BlobStore σ) (t : ℤ) (model : Model) (w : World σ)
    (a : Analysis) (w₁ : World σ) : Prop where
  /-- `put_array` is called once for each array of at least `t` bytes, in document order, and
  nothing else happens to the world. -/
  puts : ∃ refs, ((arraysOf model.tree).filter fun x => t ≤ x.nbytes).mapM store.putArray w =
    .ok refs w₁
  /-- Those are the leaves the manifest has as external references. -/
  stored : ∃ pt : Tree Placed, R.fromJson a.metadataJson = .ok (pt.subst Placed.render) ∧
    pt.map Placed.storage = model.tree.map (Leaf.storage t)
  /-- The other arrays are laid out inline, in document order. -/
  inline : Laid 0 a.arrays a.dataBytes ∧
    a.arrays.map Prod.snd = (arraysOf model.tree).filter fun x => ¬ t ≤ x.nbytes
  /-- A model with these arrays alone has the same offsets and the same `data_bytes`. -/
  alone : ∀ (τ : Type) (R' : Runtime) (model' : Model) (v v' : World τ) (a' : Analysis),
    arraysOf model'.tree = ((arraysOf model.tree).filter fun x => ¬ t ≤ x.nbytes) →
    analyzeModel R' model' none none v = .ok a' v' →
    a'.arrays = a.arrays ∧ a'.dataBytes = a.dataBytes

theorem placedAs_threshold (store : BlobStore σ) (t : ℤ) (l : Leaf) :
    l.placedAs (some store) (some t) = l.storage t := by
  cases l with
  | scalar s => rfl
  | blobRef ref => rfl
  | ndarray a =>
    rw [Leaf.placedAs, Leaf.storage, externalStore]
    split <;> rfl

theorem inlineArrays_threshold (store : BlobStore σ) (t : ℤ) (tree : Tree Leaf) :
    inlineArrays (some store) (some t) tree.leaves =
      (arraysOf tree).filter fun x => ¬ t ≤ x.nbytes := by
  rw [inlineArrays, arraysOf]
  refine List.filter_congr fun a _ => ?_
  rw [externalStore]
  split <;> simp_all

theorem externalised_of_place {t : ℤ} {pt : Tree Placed} {s : Scan σ} {a : Analysis}
    (hplace : placeTree (some store) (some t) model.tree ⟨w, [], 0⟩ = .ok pt s)
    (harrays : a.arrays = s.arrays) (hbytes : a.dataBytes = s.cursor)
    (hfrom : R.fromJson a.metadataJson = .ok (pt.subst Placed.render))
    (hstorage : pt.map Placed.storage = model.tree.map (Leaf.placedAs (some store) (some t))) :
    Externalised R store t model w a s.world := by
  have hlaid := (placeTree_laidOut hplace).1.laid
  have hinline := placeTree_inlineArrays hplace
  rw [inlineArrays_threshold, ← harrays] at hinline
  rw [← harrays, ← hbytes] at hlaid
  refine ⟨placeTree_puts hplace, ⟨pt, hfrom, ?_⟩, ⟨hlaid, hinline⟩, ?_⟩
  · rw [hstorage]
    exact Tree.map_congr _ fun l _ => placedAs_threshold store t l
  · intro τ R' model' v v' a' hsame ha'
    obtain ⟨schemaId, schemaVersion, pt', s', metadataJson, -, -, hplace', -, rfl, -⟩ :=
      analyzeModel_ok.mp ha'
    have hinline' := placeTree_inlineArrays hplace'
    have hall : inlineArrays (none : Option (BlobStore τ)) none model'.tree.leaves =
        arraysOf model'.tree := List.filter_eq_self.mpr fun _ _ => rfl
    rw [hall, hsame, ← hinline] at hinline'
    exact (placeTree_laidOut hplace').1.laid.unique hlaid hinline'

theorem blobStore_none (store : BlobStore σ) :
    ∀ s, (none : Option (BlobStore σ)) = some s → s = store := by
  intro s h
  cases h

/-- Encoding with a lawful store and a threshold is transparent: decoded with the store, the
container gives the tree that the inline encoding gives. -/
theorem externalise_transparent {t : ℤ} (hstore : store.Lawful valid denotes R) (hw : valid w)
    (ht : 0 ≤ t) (hid : schemaIdentity model.cls = .ok (schemaId, schemaVersion))
    (hversion : schemaVersion < 2 ^ 32)
    (hleaves : ∀ l ∈ model.tree.leaves, l.Storable denotes R store w)
    (hmarkers : NoMarkers model.tree)
    (hjson : MetadataRoundTrips R (some store) (some t) model w)
    (hjson₀ : MetadataRoundTrips R (none : Option (BlobStore σ)) none model w)
    (hout : ∀ a w₁, analyzeModel R model (some store) (some t) w = .ok a w₁ →
      R.Allocates w₁.live a.totalSize)
    (hout₀ : ∀ a w₁, analyzeModel R model (none : Option (BlobStore σ)) none w = .ok a w₁ →
      R.Allocates w₁.live a.totalSize) :
    ∃ a w₁ b w' b₀ w₀, analyzeModel R model (some store) (some t) w = .ok a w₁ ∧
      Externalised R store t model w a w₁ ∧
      encode R model none (some store) (some t) w = .ok b w' ∧
      encode R model none none none w = .ok b₀ w₀ ∧
      ∀ (writeable : Bool) (decodeStore : Option (BlobStore σ)), (decodeStore = some store ∨
          ∀ ref, Leaf.blobRef ref ∉ model.tree.leaves) →
        ∃ kvs v kvs₀ v₀,
          decodeAuto R (.array b.toArray writeable) (some store) w' = .ok kvs v ∧
          decodeAuto R (.array b₀.toArray writeable) decodeStore w₀ = .ok kvs₀ v₀ ∧
          (Tree.dict kvs).map (Leaf.observe v.mem) =
            (Tree.dict kvs₀).map (Leaf.observe v₀.mem) := by
  have hthreshold : checkThreshold (some store) (some t) = .ok () := if_neg (not_lt.mpr ht)
  obtain ⟨pt, s, a, b, w', hplace, ha, harrays, hbytes, hfrom, hstorage, hrun, hdecode⟩ :=
    roundTrip_lawful hstore (fun s h => (Option.some.inj h).symm) hw hid hversion hthreshold
      (fun l hl => (hleaves l hl).placeable _ _) hmarkers hjson hout
  obtain ⟨pt₀, s₀, a₀, b₀, w₀, -, -, -, -, -, -, hrun₀, hdecode₀⟩ :=
    roundTrip_lawful hstore (blobStore_none store) hw hid hversion rfl
      (fun l hl => (hleaves l hl).placeable _ _) hmarkers hjson₀ hout₀
  refine ⟨a, s.world, b, w', b₀, w₀, ha, externalised_of_place hplace harrays hbytes hfrom hstorage,
    hrun, hrun₀, fun writeable decodeStore hcase => ?_⟩
  obtain ⟨kvs, v, hauto, htree⟩ := hdecode (some store) writeable (.inl rfl)
  have hinline : decodeStore = some store ∨ ∀ l ∈ model.tree.leaves,
      l.placedAs (none : Option (BlobStore σ)) none ≠ .external := by
    refine hcase.imp_right fun hnone l hl => ?_
    cases l with
    | scalar s => exact Storage.noConfusion
    | ndarray a => exact Storage.noConfusion
    | blobRef ref => exact absurd hl (hnone ref)
  obtain ⟨kvs₀, v₀, hauto₀, htree₀⟩ := hdecode₀ decodeStore writeable hinline
  exact ⟨kvs, v, kvs₀, v₀, hauto, hauto₀, htree.trans htree₀.symm⟩

end Encode

end Lawful

/-! ## A store that keeps the arrays -/

section KeepStore

/-- The identifier of the `n`-th array. -/
def keepId (n : ℕ) : String := String.ofList (List.replicate (n + 1) 'o')

/-- A store that remembers the arrays it was handed. -/
def keepStore : BlobStore (List NdArray) where
  kind := "memory"
  putArray a := fun w => .ok
    ⟨"memory", keepId w.store.length, 0, a.nbytes, a.dtype.str, a.shape.map fun d : ℕ => (d : ℤ)⟩
    { w with store := w.store ++ [a] }
  getArray ref := fun w =>
    match w.store[ref.objectId.length - 1]? with
    | some a => .ok a w
    | none => .error (.keyError ref.objectId) w

def keepValid (w : World (List NdArray)) : Prop := ∀ a ∈ w.store, w.Holds a

def keepDenotes (w : World (List NdArray)) (ref : BlobRef) : Option NdArray.Content :=
  w.store[ref.objectId.length - 1]?.map (NdArray.content w.mem)

theorem check_keepStore {R : Runtime} {a : NdArray} (h : Encodable R a) (n : ℕ) :
    BlobRef.check R ⟨"memory", keepId n, 0, a.nbytes, a.dtype.str,
      a.shape.map fun d : ℕ => (d : ℤ)⟩ =
      .ok ⟨"memory", keepId n, 0, a.nbytes, a.dtype.str, a.shape.map fun d : ℕ => (d : ℤ)⟩ := by
  obtain ⟨hobject, hfields⟩ := validateNdarray_eq_ok.mp h.valid
  have hid : keepId n ≠ "" := by
    intro he
    have hlen := congrArg String.length he
    simp [keepId] at hlen
  have hneg : ¬ (a.shape.map fun d : ℕ => (d : ℤ)).any (· < 0) = true := by simp
  have hdtype : ¬ (a.dtype.hasobject || a.dtype.hasfields) = true := by simp [hobject, hfields]
  have hbytes : (a.dtype.itemsize : ℤ) * (a.shape.map fun d : ℕ => (d : ℤ)).prod = a.nbytes := by
    rw [prod_natCast, NdArray.nbytes, NdArray.size, Nat.mul_comm, Nat.cast_mul]
  unfold BlobRef.check
  dsimp only
  rw [raiseIf_bind (by decide), raiseIf_bind hid, raiseIf_bind (by omega), raiseIf_bind hneg,
    h.dtype_str]
  exact (raiseIf_bind hdtype).trans (raiseIf_bind (not_not.mpr hbytes))

theorem keepStore_lawful (R : Runtime) : keepStore.Lawful keepValid keepDenotes R := by
  have hlength : ∀ n, (keepId n).length - 1 = n := by
    intro n
    simp [keepId]
  constructor
  · intro w a hw ha hheld
    refine ⟨_, _, rfl, ⟨fun x hx => ⟨hx, rfl⟩, ?_, ?_⟩, ⟨rfl, ?_⟩, ?_⟩
    · intro b hb
      obtain hb | hb := List.mem_append.mp hb
      · exact hw b hb
      · rw [List.mem_singleton.mp hb]
        exact hheld
    · intro ref c hc
      obtain ⟨b, hb, rfl⟩ := Option.map_eq_some_iff.mp hc
      have hlt := (List.getElem?_eq_some_iff.mp hb).1
      rw [keepDenotes, List.getElem?_append_left hlt, hb]
      rfl
    · exact check_keepStore ha w.store.length
    · rw [keepDenotes, hlength, List.getElem?_concat_length]
      rfl
  · intro w ref c hw hc
    obtain ⟨a, ha, rfl⟩ := Option.map_eq_some_iff.mp hc
    refine ⟨a, w, ?_, .refl hw, hw a (List.mem_of_getElem? ha), rfl⟩
    unfold keepStore
    dsimp only
    rw [ha]
  · intro w w' hw hextends hstore
    refine ⟨hextends, ?_, ?_⟩
    · intro a ha
      rw [hstore] at ha
      exact (hextends.holds (hw a ha)).1
    · intro ref c hc
      obtain ⟨a, ha, rfl⟩ := Option.map_eq_some_iff.mp hc
      rw [keepDenotes, hstore, ha]
      exact congrArg some (hextends.holds (hw a (List.mem_of_getElem? ha))).2

/-! ## Models with one and with two arrays -/

/-- The reference `keepStore` makes of its first array. -/
def keepRef (a : NdArray) : BlobRef :=
  ⟨"memory", keepId 0, 0, a.nbytes, a.dtype.str, a.shape.map fun d : ℕ => (d : ℤ)⟩

def endsInBlob : Json → Bool
  | .dict kvs =>
    match kvs.getLast? with
    | some (_, .dict [("$blob", _)]) => true
    | _ => false
  | _ => false

/-- The runtime as far as two documents go, of which the first ends in a `$blob` reference. -/
def eitherRuntime (stored kept : Json) (storedText keptText : String) : Runtime :=
  { Runtime.ofDocument (.dict []) "" 4096 with
    toJson := fun _ j => .ok (asciiBytes (if endsInBlob j then storedText else keptText))
    fromJson := fun bs =>
      if bs = asciiBytes storedText then .ok stored
      else if bs = asciiBytes keptText then .ok kept
      else .error (.valueError "expected value") }

theorem fromJson_stored (stored kept : Json) (storedText keptText : String) :
    (eitherRuntime stored kept storedText keptText).fromJson (asciiBytes storedText) =
      .ok stored :=
  if_pos rfl

theorem fromJson_kept (stored kept : Json) {storedText keptText : String}
    (h : asciiBytes keptText ≠ asciiBytes storedText) :
    (eitherRuntime stored kept storedText keptText).fromJson (asciiBytes keptText) = .ok kept :=
  (if_neg h).trans (if_pos rfl)

def externalText (nbytes dtype : String) : String :=
  "\x7b\"x\":\x7b\"$blob\":\x7b\"store\":\"memory\",\"id\":\"o\",\"offset\":0,\"nbytes\":" ++
    nbytes ++ ",\"dtype\":\"" ++ dtype ++ "\",\"shape\":[1]\x7d\x7d\x7d"

/-- The runtime as far as the two manifests of a one-array model go. -/
def fieldRuntime (a : NdArray) (nbytes : String) : Runtime :=
  eitherRuntime (.dict [("x", blobManifest (keepRef a))]) (.dict [("x", binManifest 0 a)])
    (externalText nbytes a.dtype.str) (inlineText nbytes a.dtype.str)

/-- No array yet is in the store; the addresses from 0 to 24 hold those of the models. -/
def fieldWorld : World (List NdArray) :=
  ⟨oneArrayWorld.mem, fun x => decide (0 ≤ x ∧ x < 24), []⟩

theorem live_fieldWorld {x : ℤ} (h : 4096 ≤ x) : fieldWorld.live x = false :=
  decide_eq_false (by omega)

theorem keepValid_fieldWorld : keepValid fieldWorld := by
  intro a ha
  cases ha

def twoArrays : Model where
  cls := ⟨"TwoArrays", some ⟨Vector.replicate 16 7⟩, some 1⟩
  fields := [("x", .leaf (.ndarray oneElement)), ("y", .leaf (.ndarray twoElements))]

def besideText (second : String) : String :=
  "\x7b\"x\":\x7b\"$bin\":\x7b\"kind\":\"ndarray\",\"offset\":0,\"nbytes\":8," ++
    "\"dtype\":\"<f8\",\"shape\":[1]\x7d\x7d,\"y\":" ++ second ++ "\x7d"

def besideBlobText : String :=
  besideText ("\x7b\"$blob\":\x7b\"store\":\"memory\",\"id\":\"o\",\"offset\":0," ++
    "\"nbytes\":16,\"dtype\":\"<f8\",\"shape\":[2]\x7d\x7d")

def besideBinText : String :=
  besideText ("\x7b\"$bin\":\x7b\"kind\":\"ndarray\",\"offset\":64,\"nbytes\":16," ++
    "\"dtype\":\"<f8\",\"shape\":[2]\x7d\x7d")

theorem length_besideBlobText : (asciiBytes besideBlobText).length = 172 := by
  unfold besideBlobText besideText
  rw [asciiBytes_length]
  repeat rw [String.length_append]
  decide +kernel

theorem length_besideBinText : (asciiBytes besideBinText).length = 163 := by
  unfold besideBinText besideText
  rw [asciiBytes_length]
  repeat rw [String.length_append]
  decide +kernel

/-- The runtime as far as the manifests with `y` in a store and in the container go. -/
def besideRuntime : Runtime :=
  eitherRuntime
    (.dict [("x", binManifest 0 oneElement), ("y", blobManifest (keepRef twoElements))])
    (.dict [("x", binManifest 0 oneElement), ("y", binManifest 64 twoElements)])
    besideBlobText besideBinText

theorem touches_twoElements {x : ℤ} (hx : twoElements.Touches x) : 8 ≤ x ∧ x < 24 := by
  have h := NdArray.touches_contiguous (a := twoElements) (by decide) hx
  have hn : twoElements.nbytes = 16 := by decide
  have hd : twoElements.data = 8 := rfl
  rw [hn, hd] at h
  omega

theorem allocates_beside {blobStore : Option (BlobStore (List NdArray))} {threshold : Option ℤ}
    {a : Analysis} {w₁ : World (List NdArray)}
    (h : analyzeModel besideRuntime twoArrays blobStore threshold fieldWorld = .ok a w₁)
    (hbytes : a.dataBytes ≤ 128) (hlive : w₁.live = fieldWorld.live) :
    besideRuntime.Allocates w₁.live a.totalSize := by
  have hlength : a.metadataJson.length ≤ 172 := by
    obtain ⟨-, -, pt, -, metadataJson, -, -, -, hjson, rfl, -⟩ := analyzeModel_ok.mp h
    have htext := Except.ok.inj hjson
    show metadataJson.length ≤ 172
    rw [← htext]
    split
    · exact length_besideBlobText.le
    · exact length_besideBinText.trans_le (by decide)
  have hframe : frameSize = 65536 := rfl
  have hheader : headerSize = 64 := rfl
  have hstart := alignUp_lt (headerSize + a.metadataJson.length) (show 0 < frameSize by decide)
  rw [← (analyzeModel_laid h).2] at hstart
  have htotal := alignUp_lt (max (a.dataStart + a.dataBytes) frameSize)
    (show 0 < frameSize by decide)
  refine ⟨htotal.trans (by omega), 4096, rfl, fun x hx _ => ?_⟩
  rw [hlive]
  exact live_fieldWorld hx

/-- With a threshold of 16 bytes `x` stays in the container and `y` goes to the store. -/
theorem externalise_transparent_twoArrays :
    ∃ a w₁ b w' b₀ w₀,
      analyzeModel besideRuntime twoArrays (some keepStore) (some 16) fieldWorld = .ok a w₁ ∧
      Externalised besideRuntime keepStore 16 twoArrays fieldWorld a w₁ ∧
      encode besideRuntime twoArrays none (some keepStore) (some 16) fieldWorld = .ok b w' ∧
      encode besideRuntime twoArrays none none none fieldWorld = .ok b₀ w₀ ∧
      ∀ (writeable : Bool) (decodeStore : Option (BlobStore (List NdArray))),
        (decodeStore = some keepStore ∨ ∀ ref, Leaf.blobRef ref ∉ twoArrays.tree.leaves) →
        ∃ kvs v kvs₀ v₀,
          decodeAuto besideRuntime (.array b.toArray writeable) (some keepStore) w' = .ok kvs v ∧
          decodeAuto besideRuntime (.array b₀.toArray writeable) decodeStore w₀ = .ok kvs₀ v₀ ∧
          (Tree.dict kvs).map (Leaf.observe v.mem) =
            (Tree.dict kvs₀).map (Leaf.observe v₀.mem) := by
  have hleaves : twoArrays.tree.leaves = [.ndarray oneElement, .ndarray twoElements] := rfl
  refine externalise_transparent (keepStore_lawful _) keepValid_fieldWorld (by decide) rfl
    (by decide) ?_ ⟨⟨by decide, by decide⟩, trivial, trivial, trivial⟩ ?_ ?_ ?_ ?_
  · intro l hl
    rw [hleaves, List.mem_pair] at hl
    obtain rfl | rfl := hl
    · refine ⟨⟨rfl, by decide, rfl⟩, fun x hx => decide_eq_true ?_⟩
      have h := touches_oneElement hx
      omega
    · refine ⟨⟨rfl, by decide, rfl⟩, fun x hx => decide_eq_true ?_⟩
      have h := touches_twoElements hx
      omega
  · intro manifest arrays n w₁ h
    cases h
    exact ⟨_, rfl, fromJson_stored .., length_besideBlobText.trans_lt (by decide)⟩
  · intro manifest arrays n w₁ h
    cases h
    have hne : asciiBytes besideBinText ≠ asciiBytes besideBlobText := by
      intro heq
      have hlength := congrArg List.length heq
      rw [length_besideBinText, length_besideBlobText] at hlength
      exact absurd hlength (by decide)
    exact ⟨_, rfl, fromJson_kept _ _ hne, length_besideBinText.trans_lt (by decide)⟩
  · intro a w₁ h
    have hallocates := allocates_beside h
    cases h
    exact hallocates (by decide) rfl
  · intro a w₁ h
    have hallocates := allocates_beside h
    cases h
    exact hallocates (by decide) rfl

/-- An array of itemsize 0 comes back from a lawful store and not from the inline encoding. -/
theorem void_not_transparent :
    keepStore.Lawful keepValid keepDenotes (fieldRuntime voidElement "0") ∧
    ∃ b w' kvs v b₀ w₀,
      encode (fieldRuntime voidElement "0") (fieldModel voidElement) none (some keepStore) (some 0)
        fieldWorld = .ok b w' ∧
      decodeAuto (fieldRuntime voidElement "0") (.array b.toArray true) (some keepStore) w' =
        .ok kvs v ∧
      encode (fieldRuntime voidElement "0") (fieldModel voidElement) none none none fieldWorld =
        .ok b₀ w₀ ∧
      decodeAuto (fieldRuntime voidElement "0") (.array b₀.toArray true) none w₀ =
        .error (.formatError "invalid ndarray byte size") w₀ := by
  have hstore := keepStore_lawful (fieldRuntime voidElement "0")
  have hmarkers : NoMarkers (fieldModel voidElement).tree :=
    ⟨⟨by decide, by decide⟩, trivial, trivial⟩
  have hleaves : (fieldModel voidElement).tree.leaves = [.ndarray voidElement] := rfl
  refine ⟨hstore, ?_⟩
  have hjson : MetadataRoundTrips (fieldRuntime voidElement "0") (some keepStore) (some 0)
      (fieldModel voidElement) fieldWorld := by
    intro manifest arrays n w₁ h
    cases h
    exact ⟨_, rfl, fromJson_stored .., by decide +kernel⟩
  have hplaceable : ∀ l ∈ (fieldModel voidElement).tree.leaves,
      l.Placeable keepDenotes (fieldRuntime voidElement "0") keepStore (some keepStore) (some 0)
        fieldWorld := by
    intro l hl
    rw [hleaves, List.mem_singleton] at hl
    subst hl
    have hexternal : externalStore (some keepStore) (some 0) voidElement = some keepStore := rfl
    exact ⟨⟨rfl, rfl⟩, fun x hx => absurd hx (not_touches_voidElement x), by simp [hexternal]⟩
  have hout : ∀ a w₁, analyzeModel (fieldRuntime voidElement "0") (fieldModel voidElement)
      (some keepStore) (some 0) fieldWorld = .ok a w₁ →
      (fieldRuntime voidElement "0").Allocates w₁.live a.totalSize := by
    intro a w₁ h
    cases h
    exact ⟨by decide +kernel, 4096, rfl, fun x hx _ => live_fieldWorld hx⟩
  obtain ⟨-, -, -, b, w', -, -, -, -, -, -, hrun, hdecode⟩ := roundTrip_lawful hstore
    (fun s h => (Option.some.inj h).symm) keepValid_fieldWorld rfl (by decide) rfl hplaceable
    hmarkers hjson hout
  obtain ⟨kvs, v, hauto, -⟩ := hdecode (some keepStore) true (.inl rfl)
  let a : Analysis := ⟨⟨Vector.replicate 16 7⟩, 1, 0,
    alignUp (headerSize + (asciiBytes (inlineText "0" "|V0")).length) frameSize, [(0, voidElement)],
    asciiBytes (inlineText "0" "|V0")⟩
  have ha : analyzeModel (fieldRuntime voidElement "0") (fieldModel voidElement) none none
      fieldWorld = .ok a fieldWorld := rfl
  have hsize : a.totalSize < 2 ^ 63 := by decide +kernel
  obtain ⟨w₂, hacquire⟩ : ∃ w₂, acquireOutput (fieldRuntime voidElement "0") a.totalSize none
      fieldWorld = .ok ⟨4096, a.totalSize, hsize⟩ w₂ := by
    unfold acquireOutput
    exact ⟨_, empty_eq_ok.mpr ⟨4096, hsize, rfl, rfl, rfl⟩⟩
  obtain ⟨header, hhead⟩ := (packHeader_isOk_iff a).mpr
    ⟨by decide, by decide +kernel, hsize.trans (by decide)⟩
  obtain ⟨hl, hstart⟩ := analyzeModel_laid ha
  obtain ⟨w₀, hrun₀, hholds, -⟩ := encode_holds ha hhead hacquire
    (sourcesSurvive_of_output hhead hl hstart rfl fun relOffset node hmem x hx => by
      obtain ⟨-, rfl⟩ := Prod.mk.inj (List.mem_singleton.mp hmem)
      exact absurd hx (not_touches_voidElement x))
  refine ⟨b, w', kvs, v, _, w₀, hrun, hauto, hrun₀, ?_⟩
  have hfrom : (fieldRuntime voidElement "0").fromJson a.metadataJson =
      .ok (.dict [("x", binManifest 0 voidElement)]) :=
    fromJson_kept _ _ (by decide +kernel)
  rw [decodeAuto_container hholds.framed hfrom]
  rfl

end KeepStore
end Npb
