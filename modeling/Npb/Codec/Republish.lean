import Npb.Codec.JsonForm
import Npb.Codec.Overwrite

/-! # Republishing

A stage decodes a container with its own class and encodes the model again. However often that is
done, the bytes stay what `encode` first wrote (`republish_stable`): what a stage decodes looks like
the first model (`decode_form`), so it is laid out like it (`analyzeModel_form`). -/

namespace Npb
set_option autoImplicit false
open Effects Numpy

variable {σ : Type}

/-- One stage of a pipeline without a store: `encode(decode(cls, binary))`. -/
def hop (R : Runtime) (cls : ModelClass)
    (modelValidate : List (String × Tree Leaf) → Py σ Model) (binary : Buffer) : Py σ Buffer := do
  let model ← decode R cls modelValidate (.array binary.toArray true) none
  encode R model none none none

/-- A leaf that the inline format carries: a scalar, or an array of positive itemsize. -/
def Leaf.Carried (R : Runtime) (w : World σ) : Leaf → Prop
  | .scalar _ => True
  | .ndarray a => Supported R a ∧ w.Holds a
  | .blobRef _ => False

theorem Leaf.Carried.held {R : Runtime} {w : World σ} {l : Leaf} (h : l.Carried R w) :
    l.Held w := by
  cases l with
  | scalar s => trivial
  | ndarray a => exact h.2
  | blobRef ref => trivial

/-- `from_json` reads the manifest back in its JSON form, and every manifest of that form is
written alike. -/
def Runtime.JsonStable (R : Runtime) (J : JsonForm) (manifest : Json) : Prop :=
  ∀ metadataJson, R.toJson jsonFallback manifest = .ok metadataJson →
    R.fromJson metadataJson = .ok (J.normal manifest) ∧
      ∀ manifest', J.normal manifest' = J.normal manifest →
        R.toJson jsonFallback manifest' = .ok metadataJson

/-- `np.empty` hands out memory in which no live object lies. -/
def Runtime.AllocatesFresh (R : Runtime) : Prop :=
  ∀ live n p, R.alloc live n = some p → ∀ x, p ≤ x → x < p + n → live x = false

section Hop
variable {R : Runtime} {J : JsonForm} {a : Analysis} {m₀ : Mem} {binary : Buffer}

/-! ## Encoding into fresh memory -/

/-- The buffer holds the container of `a`, in memory that belongs to it. -/
structure Published (v : World σ) (binary : Buffer) (a : Analysis) (m₀ : Mem) : Prop where
  holds : Holds v.mem binary a m₀
  size : binary.size = a.totalSize
  live : ∀ x, binary.Contains x → v.live x = true

theorem acquireOutput_fresh (hfresh : R.AllocatesFresh) {n : ℕ} {w w' : World σ}
    (h : acquireOutput R n none w = .ok binary w') :
    w'.mem = w.mem ∧ w.Extends w' ∧ (∀ x, binary.Contains x → w'.live x = true) ∧
      ∀ x, binary.Contains x → w.live x = false := by
  obtain ⟨p, hn, halloc, rfl, rfl⟩ := empty_eq_ok.mp h
  refine ⟨rfl, fun x hx => ⟨by simp [hx], rfl⟩, ?_, fun x hx => hfresh _ _ _ halloc x hx.1 hx.2⟩
  intro x hx
  obtain ⟨hlo, hhi⟩ := hx
  dsimp only at hlo hhi ⊢
  rw [Bool.or_eq_true, Bool.and_eq_true]
  exact .inr ⟨decide_eq_true hlo, decide_eq_true hhi⟩

/-- Without an output argument `encode` publishes the container, or finds no memory. -/
theorem encode_published (hfresh : R.AllocatesFresh) {model : Model} {w : World σ}
    (ha : analyzeModel R model none none w = .ok a w) (hfits : a.HeaderFits)
    (hsize : a.totalSize < 2 ^ 63) (hheld : ∀ l ∈ model.tree.leaves, l.Held w) :
    (∃ binary w', encode R model none none none w = .ok binary w' ∧
      Published w' binary a w.mem ∧ w.Extends w') ∨
    (encode R model none none none w = .error .memoryError w ∧
      R.alloc w.live a.totalSize = none) := by
  obtain ⟨hl, hstart⟩ := analyzeModel_laid ha
  obtain ⟨header, hhead⟩ := (packHeader_isOk_iff a).mpr hfits
  have hempty : acquireOutput R a.totalSize (none : Option Argument) w =
      empty R.alloc a.totalSize w := rfl
  unfold empty at hempty
  rw [dif_pos hsize] at hempty
  cases halloc : R.alloc w.live a.totalSize with
  | none =>
    rw [halloc] at hempty
    refine .inr ⟨?_, rfl⟩
    unfold encode
    rw [bind_ok ha]
    exact bind_error (bind_error hempty _) _
  | some p =>
    rw [halloc] at hempty
    obtain ⟨hmem, hextends, hlive, hnew⟩ := acquireOutput_fresh hfresh hempty
    obtain ⟨hbsize, -⟩ := acquireOutput_ok hempty
    obtain ⟨w', hrun, hholds, hwlive, -, hrest⟩ := encode_holds ha hhead hempty
      (sourcesSurvive_of_output hhead hl hstart hbsize fun relOffset node hnode x hx hin => by
        have hleaf := hheld _ (mem_arraysOf.mp (analyzeModel_sources ha hnode))
        have hold := hleaf x hx
        rw [hnew x hin] at hold
        cases hold)
    refine .inl ⟨_, w', hrun, ⟨hholds, hbsize, fun x hx => ?_⟩, fun x hx => ?_⟩
    · rw [hwlive]
      exact hlive x hx
    · obtain ⟨hx', -⟩ := hextends x hx
      refine ⟨by rw [hwlive]; exact hx', ?_⟩
      apply hrest
      intro hin
      rw [hnew x hin] at hx
      cases hx

/-! ## What a stage decodes -/

/-- A placed tree with the scalars in their JSON forms. -/
def Placed.normal (J : JsonForm) : Placed → Tree Placed
  | .scalar s => (J.form s).map .scalar
  | .inline relOffset a => .leaf (.inline relOffset a)
  | .external ref => .leaf (.external ref)

theorem subst_render_normal (pt : Tree Placed) :
    (pt.subst (Placed.normal J)).subst Placed.render = J.normal (pt.subst Placed.render) := by
  rw [Tree.subst_subst, JsonForm.normal, Tree.subst_subst]
  refine Tree.subst_congr pt fun p _ => ?_
  cases p with
  | scalar s =>
    rw [Placed.normal, Tree.subst_map]
    exact Tree.map_id (J.form s)
  | inline relOffset node => exact (normal_binManifest J relOffset node).symm
  | external ref => exact (normal_blobManifest J ref).symm

theorem noMarkers_normal {pt : Tree Placed} (h : NoMarkers pt) :
    NoMarkers (pt.subst (Placed.normal J)) := by
  refine (Tree.everyDict_subst _ pt).mpr ⟨?_, fun p _ => ?_⟩
  · simp only [List.map_map, Function.comp_def]
    exact h
  · cases p with
    | scalar s => exact (noMarkers_map _ _).mpr (J.plain s)
    | inline relOffset node => trivial
    | external ref => trivial

theorem normal_inlineIn {pt : Tree Placed} {arrays : List (ℕ × NdArray)}
    (h : ∀ p ∈ pt.leaves, p.InlineIn R arrays) :
    ∀ p ∈ (pt.subst (Placed.normal J)).leaves, p.InlineIn R arrays := by
  intro p hp
  rw [Tree.leaves_subst] at hp
  obtain ⟨q, hq, hpq⟩ := List.mem_flatMap.mp hp
  cases q with
  | scalar s =>
    rw [Placed.normal, Tree.leaves_map] at hpq
    obtain ⟨s', -, rfl⟩ := List.mem_map.mp hpq
    trivial
  | inline relOffset node =>
    have he : p = .inline relOffset node := by simpa [Placed.normal] using hpq
    rw [he]
    exact h _ hq
  | external ref =>
    have he : p = .external ref := by simpa [Placed.normal] using hpq
    rw [he]
    exact h _ hq

/-- Resolved in the container, the normal form of a placed tree has the form of its sources. -/
theorem form_resolved {m : Mem} (h : Holds m binary a m₀) {pt : Tree Placed}
    (hplaced : ∀ p ∈ pt.leaves, p.InlineIn R a.arrays) :
    formOf J m ((pt.subst (Placed.normal J)).map (Placed.resolved binary.base a.dataStart)) =
      formOf J m₀ (pt.map Placed.source) := by
  rw [formOf, formOf, Tree.subst_map, Tree.subst_map, Tree.subst_subst]
  refine Tree.subst_congr pt fun p hp => ?_
  have hp' := hplaced p hp
  cases p with
  | scalar s =>
    rw [Placed.normal, Tree.subst_map]
    have hagain : ((J.form s).subst J.form).map LeafValue.scalar =
        (J.form s).map LeafValue.scalar := by rw [J.again]
    rw [Tree.map_subst] at hagain
    exact hagain
  | inline relOffset node =>
    rw [Placed.normal, Tree.subst_leaf]
    exact congrArg (fun c => Tree.leaf (LeafValue.array c)) (content_decodedView h hp'.1)
  | external ref => exact hp'.elim

variable {model : Model} {w : World σ} {pt : Tree Placed}

/-- What is decoded looks like the model that was encoded. -/
theorem decode_form {v : World σ} (hpublished : Published v binary a m₀) (hmarkers : NoMarkers pt)
    (hfrom : R.fromJson a.metadataJson = .ok (J.normal (pt.subst Placed.render)))
    (hid : schemaIdentity model.cls = .ok (a.schemaId, a.schemaVersion))
    (hsource : pt.map Placed.source = model.tree)
    (hplaced : ∀ p ∈ pt.leaves, p.InlineIn R a.arrays) :
    ∃ kvs, (∀ (α : Type) (modelValidate : List (String × Tree Leaf) → Py σ α),
        decode R model.cls modelValidate (.array binary.toArray true) none v =
          modelValidate kvs v) ∧
      formOf J v.mem (.dict kvs) = formOf J m₀ model.tree ∧
      ∀ l ∈ (Tree.dict kvs).leaves, l.Held v := by
  obtain ⟨hholds, -, hlive⟩ := hpublished
  have hnormal := normal_inlineIn (J := J) hplaced
  have hbind : Tree.bindM (restorePlaced R binary a.dataStart a.dataBytes none)
      (pt.subst (Placed.normal J)) v =
      .ok ((pt.subst (Placed.normal J)).map (Placed.resolved binary.base a.dataStart)) v :=
    Tree.bindM_pure _ fun p hp => restorePlaced_inline hholds (hnormal p hp)
  obtain ⟨kvs, hkvs⟩ : ∃ kvs, (pt.subst (Placed.normal J)).map
      (Placed.resolved binary.base a.dataStart) = .dict kvs := by
    obtain ⟨items, rfl⟩ := Tree.eq_dict_of_map (hsource.trans rfl : pt.map _ = .dict _)
    rw [Tree.subst_dict, Tree.map_dict]
    exact ⟨_, rfl⟩
  have hauto : decodeAuto R (.array binary.toArray true) none v = .ok kvs v := by
    rw [decodeAuto_placed hholds.framed (noMarkers_normal hmarkers)
      (by rw [subst_render_normal]; exact hfrom), bind_ok hbind, hkvs]
    rfl
  have hleaves : ∀ l ∈ (Tree.dict kvs).leaves, ∃ p : Placed,
      p.InlineIn R a.arrays ∧ l = p.resolved binary.base a.dataStart := by
    intro l hl
    rw [← hkvs, Tree.leaves_map] at hl
    obtain ⟨p, hp, rfl⟩ := List.mem_map.mp hl
    exact ⟨p, hnormal p hp, rfl⟩
  refine ⟨kvs, fun α modelValidate => ?_, ?_, ?_⟩
  · refine decode_container hholds.framed hid hauto ?_
    rw [Bool.eq_false_iff, Ne, containsUnresolvedBlobRef_iff]
    intro hunresolved
    obtain ⟨ref, href⟩ := hunresolved
    obtain ⟨p, hp, he⟩ := hleaves _ href
    cases p with
    | scalar s => cases he
    | inline relOffset node => cases he
    | external ref' => exact hp
  · rw [← hkvs, form_resolved hholds hplaced, hsource]
  · intro l hl
    obtain ⟨p, hp, rfl⟩ := hleaves l hl
    cases p with
    | scalar s => trivial
    | inline relOffset node => exact holds_decodedView hholds hlive hp.1
    | external ref => exact hp.elim

/-! ## What a stage encodes -/

/-- A model of the same form is analysed alike. -/
theorem analyzeModel_form {model' : Model} {v : World σ} {s : Scan σ}
    (ha : a = ⟨a.schemaId, a.schemaVersion, s.cursor,
      alignUp (headerSize + a.metadataJson.length) frameSize, s.arrays, a.metadataJson⟩)
    (hid : schemaIdentity model'.cls = .ok (a.schemaId, a.schemaVersion))
    (hplace : placeTree none none model.tree ⟨w, [], 0⟩ = .ok pt s)
    (hto : ∀ manifest', J.normal manifest' = J.normal (pt.subst Placed.render) →
      R.toJson jsonFallback manifest' = .ok a.metadataJson)
    (hvalid : ∀ node ∈ arraysOf model.tree, validateNdarray node = .ok ())
    (hform : formOf J v.mem model'.tree = formOf J m₀ model.tree) :
    ∃ a', analyzeModel R model' none none v = .ok a' v ∧ a.SameForm a' m₀ v.mem := by
  obtain ⟨pt', s', hplace', hworld, -⟩ := placeTree_inline (validate_of_form hform hvalid) v
  have hlay := placeTree_form J m₀ hplace
  have hlay' := placeTree_form J v.mem hplace'
  rw [hform, hlay] at hlay'
  obtain ⟨hmanifest, hforms⟩ := EStateM.Result.ok.inj hlay'
  obtain ⟨harrays, hcursor⟩ := FormScan.mk.inj hforms
  refine ⟨⟨a.schemaId, a.schemaVersion, s'.cursor,
    alignUp (headerSize + a.metadataJson.length) frameSize, s'.arrays, a.metadataJson⟩, ?_, ?_⟩
  · exact analyzeModel_ok.mpr ⟨_, _, pt', s', a.metadataJson, hid, rfl, hplace',
      hto _ hmanifest.symm, rfl, hworld.symm⟩
  · rw [ha]
    exact ⟨rfl, rfl, hcursor.symm, rfl, rfl, harrays.symm⟩

end Hop

/-! ## Any number of stages -/

section Stages
variable {R : Runtime} {J : JsonForm} {model : Model} {w w' : World σ} {binary : Buffer}
  {modelValidate : List (String × Tree Leaf) → Py σ Model}

/-- What the encoder knows of a model without stores, and its JSON library of the manifest. -/
structure Described (R : Runtime) (J : JsonForm) (model : Model) (w : World σ) (pt : Tree Placed)
    (s : Scan σ) (a : Analysis) : Prop where
  analysis : a = ⟨a.schemaId, a.schemaVersion, s.cursor,
    alignUp (headerSize + a.metadataJson.length) frameSize, s.arrays, a.metadataJson⟩
  identity : schemaIdentity model.cls = .ok (a.schemaId, a.schemaVersion)
  places : placeTree none none model.tree ⟨w, [], 0⟩ = .ok pt s
  source : pt.map Placed.source = model.tree
  markers : NoMarkers pt
  inlined : ∀ p ∈ pt.leaves, p.InlineIn R a.arrays
  valid : ∀ node ∈ arraysOf model.tree, validateNdarray node = .ok ()
  reads : R.fromJson a.metadataJson = .ok (J.normal (pt.subst Placed.render))
  writes : ∀ manifest', J.normal manifest' = J.normal (pt.subst Placed.render) →
    R.toJson jsonFallback manifest' = .ok a.metadataJson
  fits : a.HeaderFits
  size : a.totalSize < 2 ^ 63

/-- A model that is encoded without an output argument is described, and published. -/
theorem encode_described (hfresh : R.AllocatesFresh)
    (hleaves : ∀ l ∈ model.tree.leaves, l.Carried R w) (hmarkers : NoMarkers model.tree)
    (hjson : ∀ manifest arrays n w₁,
      buildManifest none none model.modelDump w = .ok (manifest, arrays, n) w₁ →
      R.JsonStable J manifest)
    (hencode : encode R model none none none w = .ok binary w') :
    ∃ pt s a, Described R J model w pt s a ∧ Published w' binary a w.mem := by
  obtain ⟨a, w₁, w₂, ha, hacquire, hframed, -, -, hfits⟩ := encode_framed hencode
  obtain ⟨-, rfl⟩ := analyzeModel_offline ha w
  have hlt : a.totalSize < 2 ^ 63 := by
    rw [← (acquireOutput_ok hacquire).1]
    exact binary.size_lt
  have hheld : ∀ l ∈ model.tree.leaves, l.Held w₁ := fun l hl => (hleaves l hl).held
  have hsupported : ∀ node ∈ arraysOf model.tree, Supported R node :=
    fun node hnode => (hleaves _ (mem_arraysOf.mp hnode)).1
  have hvalid := fun node hnode => (hsupported node hnode).valid
  obtain ⟨schemaId, schemaVersion, pt, s, metadataJson, hid, -, hplace, hto, hanalysis, hworld⟩ :=
    analyzeModel_ok.mp ha
  have hbuild : buildManifest none none model.modelDump w₁ =
      .ok (pt.subst Placed.render, s.arrays, s.cursor) s.world := by
    rw [buildManifest_run, ← Model.tree, hplace]
  obtain ⟨hfrom, hsame⟩ := hjson _ _ _ _ hbuild metadataJson hto
  obtain ⟨pt', s', hplace', -, hsource⟩ := placeTree_inline hvalid w₁
  cases hplace.symm.trans hplace'
  have hpt : NoMarkers pt := by rwa [← hsource, noMarkers_map] at hmarkers
  have hplaced : ∀ p ∈ pt.leaves, p.InlineIn R a.arrays := by
    intro p hp
    have hleaf : p.source ∈ model.tree.leaves := by
      rw [← hsource, Tree.leaves_map]
      exact List.mem_map_of_mem hp
    have hcarried := hleaves _ hleaf
    cases p with
    | scalar v => trivial
    | external ref => exact hcarried
    | inline relOffset node =>
      refine ⟨?_, hcarried.1⟩
      rw [hanalysis]
      exact (placeTree_laidOut hplace).2 _ _ hp
  have hpublished : Published w' binary a w₁.mem := by
    cases encode_published hfresh ha hfits hlt hheld with
    | inl hok =>
      obtain ⟨b, v, hrun, hb, -⟩ := hok
      cases hrun.symm.trans hencode
      exact hb
    | inr herror => cases herror.1.symm.trans hencode
  subst hanalysis
  exact ⟨pt, s, _, ⟨rfl, hid, hplace, hsource, hpt, hplaced, hvalid, hfrom, hsame, hfits, hlt⟩,
    hpublished⟩

end Stages

/-! ## A class without validators -/

mutual
/-- A decoded tree as the value of a model. -/
def Value.ofTree : Tree Leaf → Value
  | .leaf l => .leaf l
  | .list xs => .list (ofTrees xs)
  | .dict kvs => .dict (ofItems kvs)

def Value.ofTrees : List (Tree Leaf) → List Value
  | [] => []
  | x :: xs => ofTree x :: ofTrees xs

def Value.ofItems : List (String × Tree Leaf) → List (String × Value)
  | [] => []
  | (k, v) :: kvs => (k, ofTree v) :: ofItems kvs
end

mutual
theorem Value.listed_ofTree : ∀ t : Tree Leaf, (Value.ofTree t).listed = t
  | .leaf l => rfl
  | .list xs => by rw [ofTree, listed, listedAll_ofTrees xs]
  | .dict kvs => by rw [ofTree, listed, listedItems_ofItems kvs]

theorem Value.listedAll_ofTrees : ∀ xs : List (Tree Leaf), Value.listedAll (Value.ofTrees xs) = xs
  | [] => rfl
  | x :: xs => by rw [ofTrees, listedAll, listed_ofTree x, listedAll_ofTrees xs]

theorem Value.listedItems_ofItems : ∀ kvs : List (String × Tree Leaf),
    Value.listedItems (Value.ofItems kvs) = kvs
  | [] => rfl
  | (k, v) :: kvs => by rw [ofItems, listedItems, listed_ofTree v, listedItems_ofItems kvs]
end

/-- A class whose fields take whatever they are given. -/
def plainValidate (cls : ModelClass) (kvs : List (String × Tree Leaf)) : Py σ Model :=
  return ⟨cls, Value.ofItems kvs⟩

theorem tree_plainValidate (cls : ModelClass) (kvs : List (String × Tree Leaf)) :
    Model.tree ⟨cls, Value.ofItems kvs⟩ = .dict kvs := Value.listed_ofTree (.dict kvs)

section Samples

/-- An allocator that looks before it takes. -/
def Runtime.careful (R : Runtime) : Runtime := { R with
  alloc := fun live n =>
    if (List.range n).all fun i => !live (4096 + i) then some 4096 else none }

theorem careful_fresh (R : Runtime) : R.careful.AllocatesFresh := by
  intro live n p halloc x hlo hhi
  unfold Runtime.careful at halloc
  dsimp only at halloc
  split at halloc
  · next hfree =>
    cases halloc
    obtain ⟨i, hi⟩ := Int.eq_ofNat_of_zero_le (show 0 ≤ x - 4096 by omega)
    have hx := List.all_eq_true.mp hfree i (List.mem_range.mpr (by omega))
    rw [← hi] at hx
    simpa using hx
  · cases halloc

theorem careful_alloc (R : Runtime) (n : ℕ) :
    R.careful.alloc oneArrayWorld.live n = some 4096 := by
  have hfree : ((List.range n).all fun i => !oneArrayWorld.live (4096 + i)) = true := by
    refine List.all_eq_true.mpr fun i _ => ?_
    have hdead : oneArrayWorld.live (4096 + i) = false := decide_eq_false (by omega)
    rw [hdead]
    rfl
  exact if_pos hfree

/-- The world of the one-array model, with this memory. -/
def oneArrayIn (m : Mem) : World Unit := { oneArrayWorld with mem := m }

theorem carried_oneArray (m : Mem) : ∀ l ∈ oneArray.tree.leaves,
    l.Carried oneArrayRuntime.careful (oneArrayIn m) := by
  intro l hl
  rw [leaves_oneArray, List.mem_singleton] at hl
  rw [hl]
  exact ⟨⟨rfl, by decide, rfl⟩, fun x hx => decide_eq_true (touches_oneElement hx)⟩

theorem noMarkers_oneArray : NoMarkers oneArray.tree := ⟨⟨by decide, by decide⟩, trivial, trivial⟩

theorem jsonStable_oneArray (m : Mem) (manifest : Json) (arrays : List (ℕ × NdArray)) (n : ℕ)
    (w : World Unit)
    (hbuild : buildManifest none none oneArray.modelDump (oneArrayIn m) =
      .ok (manifest, arrays, n) w) : oneArrayRuntime.careful.JsonStable .same manifest := by
  have hmanifest : manifest = .dict [("x", binManifest 0 oneElement)] := by
    have hoffset : alignUp 0 arrayAlignment = 0 := by decide
    rw [← hoffset]
    cases hbuild
    rfl
  subst hmanifest
  intro metadataJson hto
  cases hto
  rw [normal_same]
  exact ⟨Runtime.fromJson_ofDocument (.dict [("x", binManifest 0 oneElement)]) oneArrayText 4096,
    fun manifest' _ => rfl⟩

theorem encode_oneArray (m : Mem) : ∃ binary w,
    encode oneArrayRuntime.careful oneArray none none none (oneArrayIn m) = .ok binary w ∧
      Published w binary oneArrayAnalysis m := by
  have ha : analyzeModel oneArrayRuntime.careful oneArray none none (oneArrayIn m) =
      .ok oneArrayAnalysis (oneArrayIn m) := analyzeModel_oneArray (oneArrayIn m)
  have hfits : oneArrayAnalysis.HeaderFits :=
    ⟨by decide, by decide +kernel, by rw [totalSize_oneArray]; decide⟩
  cases encode_published (careful_fresh _) ha hfits (by rw [totalSize_oneArray]; decide)
      fun l hl => (carried_oneArray m l hl).held with
  | inl hok =>
    obtain ⟨binary, w, hrun, hpublished, -⟩ := hok
    exact ⟨binary, w, hrun, hpublished⟩
  | inr herror =>
    have halloc := herror.2
    rw [oneArrayIn, careful_alloc] at halloc
    cases halloc

/-- A reference to a Vineyard object, and the text of a model that holds it. -/
def heldRef : BlobRef := ⟨"vineyard", "o", 0, 8, "<f8", [1]⟩

def heldText : String :=
  "\x7b\"x\":\x7b\"$blob\":\x7b\"store\":\"vineyard\",\"id\":\"o\",\"offset\":0," ++
    "\"nbytes\":8,\"dtype\":\"<f8\",\"shape\":[1]\x7d\x7d\x7d"

def heldRuntime : Runtime := .ofDocument (.dict [("x", blobManifest heldRef)]) heldText 4096

end Samples
end Npb
