import Npb.Codec.Republish
import Npb.Codec.Sections

/-! # Writing through decoded arrays

`decode` returns views of the buffer, and whoever holds one may write to it. Such a write changes
bytes of one array and nothing else: the buffer still decodes to the same views, and it holds the
container that encoding the changed model would have produced (`mutation_encodes`). -/

namespace Npb
set_option autoImplicit false
open Effects Numpy

variable {σ : Type}

/-- `m'` is `m` up to bytes of the arrays of `t`. -/
def MutatedIn (t : Tree Leaf) (m m' : Mem) : Prop :=
  ∀ x, (∀ node ∈ arraysOf t, ¬ node.Touches x) → m' x = m x

theorem MutatedIn.refl (t : Tree Leaf) (m : Mem) : MutatedIn t m m := fun _ _ => rfl

theorem MutatedIn.trans {t : Tree Leaf} {m m' m'' : Mem} (h : MutatedIn t m m')
    (h' : MutatedIn t m' m'') : MutatedIn t m m'' :=
  fun x hx => (h' x hx).trans (h x hx)

theorem MutatedIn.write {t : Tree Leaf} {node : NdArray} (hnode : node ∈ arraysOf t)
    (hcontiguous : node.isCContiguous = true) {bs : List UInt8} (hbs : bs.length = node.nbytes)
    (m : Mem) : MutatedIn t m (m.write node.data bs) := by
  intro x hx
  have hout := mt (NdArray.touches_iff_contiguous hcontiguous).mpr (hx node hnode)
  rw [Mem.write, if_neg]
  rwa [hbs]

/-! ## The views of a container -/

def viewsAt (base : ℤ) (dataStart : ℕ) (arrays : List (ℕ × NdArray)) : List (ℕ × NdArray) :=
  arrays.map fun x => (x.1, decodedView base dataStart x.1 x.2)

/-- The same container with the arrays it holds itself. -/
def Analysis.decoded (a : Analysis) (base : ℤ) : Analysis :=
  { a with arrays := viewsAt base a.dataStart a.arrays }

section Views
variable {m m' m₀ : Mem} {base : ℤ} {dataStart c e : ℕ} {arrays : List (ℕ × NdArray)}

theorem Laid.viewsAt (h : Laid c arrays e) : Laid c (viewsAt base dataStart arrays) e := by
  induction arrays generalizing c with
  | nil => exact h
  | cons x arrays ih =>
    obtain ⟨hoff, hrest⟩ := h
    exact ⟨hoff, ih hrest⟩

theorem tobytes_decodedView (m : Mem) (relOffset : ℕ) (node : NdArray) :
    (decodedView base dataStart relOffset node).tobytes m =
      m.read (base + (dataStart + relOffset : ℕ)) node.nbytes :=
  NdArray.tobytes_contiguous m (decodedView_isCContiguous ..)

theorem touches_decodedView {relOffset : ℕ} {node : NdArray} {x : ℤ} :
    (decodedView base dataStart relOffset node).Touches x ↔
      base + (dataStart + relOffset : ℕ) ≤ x ∧
        x < base + (dataStart + relOffset : ℕ) + node.nbytes :=
  NdArray.touches_iff_contiguous (decodedView_isCContiguous ..)

/-- Where only bytes of the arrays change, the DATA section is the arrays as they are now. -/
theorem read_viewsAt (hl : Laid c arrays e)
    (hread : m.read (base + (dataStart + c : ℕ)) (e - c) = body m₀ c arrays)
    (hsame : ∀ q, c ≤ q → q < e → (∀ x ∈ arrays, ¬ (x.1 ≤ q ∧ q < x.1 + x.2.nbytes)) →
      m' (base + (dataStart + q : ℕ)) = m (base + (dataStart + q : ℕ))) :
    m'.read (base + (dataStart + c : ℕ)) (e - c) = body m' c (viewsAt base dataStart arrays) := by
  induction arrays generalizing c with
  | nil =>
    have he : e = c := hl
    rw [he, Nat.sub_self]
    rfl
  | cons x arrays ih =>
    have hle := Laid.start_le hl
    obtain ⟨hoff, hrest⟩ := hl
    have hend := hrest.le
    have hsplit : e - c = (x.1 - c) + (x.2.nbytes + (e - (x.1 + x.2.nbytes))) := by omega
    have hview : base + (dataStart + c : ℕ) + (x.1 - c : ℕ) = base + (dataStart + x.1 : ℕ) := by
      omega
    have htail : base + (dataStart + x.1 : ℕ) + x.2.nbytes =
        base + (dataStart + (x.1 + x.2.nbytes) : ℕ) := by
      omega
    have hbody : ∀ m : Mem, m.read (base + (dataStart + c : ℕ)) (e - c) =
        m.read (base + (dataStart + c : ℕ)) (x.1 - c) ++
          (m.read (base + (dataStart + x.1 : ℕ)) x.2.nbytes ++
            m.read (base + (dataStart + (x.1 + x.2.nbytes) : ℕ)) (e - (x.1 + x.2.nbytes))) := by
      intro m
      rw [hsplit, Mem.read_add, Mem.read_add, hview, htail]
    rw [hbody, body, List.append_assoc] at hread
    obtain ⟨hgap, hread'⟩ := List.append_inj hread (by simp)
    obtain ⟨-, hread''⟩ := List.append_inj hread' (by simp)
    -- The gap before the array belongs to no array.
    have hgap' : m'.read (base + (dataStart + c : ℕ)) (x.1 - c) = List.replicate (x.1 - c) 0 := by
      rw [← hgap]
      refine Mem.read_congr fun i hi => ?_
      have hout := hsame (c + i) (by omega) (by omega) fun y hy hin => by
        obtain rfl | hy := List.mem_cons.mp hy
        · omega
        · have hlo := (hrest.mem_bounds hy).1
          omega
      rwa [show base + (dataStart + (c + i) : ℕ) = base + (dataStart + c : ℕ) + i by omega] at hout
    have hrest' := ih hrest hread'' fun q hlo hhi hout => hsame q (by omega) hhi fun y hy hin => by
      obtain rfl | hy := List.mem_cons.mp hy
      · omega
      · exact hout y hy hin
    rw [hbody, hgap', hrest', ← tobytes_decodedView]
    exact (List.append_assoc ..).symm

end Views

section Container
variable {R : Runtime} {J : JsonForm} {a : Analysis} {m m' m₀ : Mem} {binary : Buffer}

/-- The bytes of the container that no array takes are what they were. -/
theorem Framed.mutated (h : Framed m binary a)
    (hsame : ∀ x, (∀ y ∈ viewsAt binary.base a.dataStart a.arrays, ¬ y.2.Touches x) →
      m' x = m x) : Framed m' binary a := by
  obtain ⟨hl, hstart, hroom, header, hhead, hbytes⟩ := h
  refine ⟨hl, hstart, hroom, header, hhead, ?_⟩
  rw [← hbytes]
  refine Mem.read_congr fun i hi => hsame _ fun y hy htouch => ?_
  obtain ⟨x, -, rfl⟩ := List.mem_map.mp hy
  have hlo := (touches_decodedView.mp htouch).1
  omega

/-- Buffers that hold one container have the same bytes. -/
theorem Holds.read_eq {binary' : Buffer} (h : Holds m binary a m₀) (h' : Holds m' binary' a m₀) :
    m'.read binary'.base a.totalSize = m.read binary.base a.totalSize := by
  obtain ⟨-, -, -, header, hhead, hbytes⟩ := h
  obtain ⟨-, -, -, header', hhead', hbytes'⟩ := h'
  cases hhead.symm.trans hhead'
  exact hbytes'.trans hbytes.symm

/-- The buffer holds the container of its own arrays, whatever has been written to them. -/
theorem Holds.mutated (h : Holds m binary a m₀)
    (hsame : ∀ x, (∀ y ∈ viewsAt binary.base a.dataStart a.arrays, ¬ y.2.Touches x) →
      m' x = m x) : Holds m' binary (a.decoded binary.base) m' := by
  obtain ⟨hl, hstart, hroom, header, hhead, hbytes⟩ := h
  have hflen := frame_length (packHeader_length hhead) (Analysis.frame_le hstart)
  have hblen := body_length m₀ hl
  have htotal := le_totalSize a
  have hsplit : a.totalSize =
      a.dataStart + (a.dataBytes + (a.totalSize - (a.dataStart + a.dataBytes))) := by omega
  have hdata : binary.base + (a.dataStart : ℤ) = binary.base + (a.dataStart + 0 : ℕ) := by omega
  have hparts : ∀ m : Mem, m.read binary.base a.totalSize = m.read binary.base a.dataStart ++
      (m.read (binary.base + (a.dataStart + 0 : ℕ)) (a.dataBytes - 0) ++
        m.read (binary.base + (a.dataStart + 0 : ℕ) + a.dataBytes)
          (a.totalSize - (a.dataStart + a.dataBytes))) := by
    intro m
    rw [hsplit, Mem.read_add, Mem.read_add, hdata, ← hsplit]
    rfl
  rw [containerBytes, List.append_assoc, hparts] at hbytes
  obtain ⟨hframe, hrest⟩ := List.append_inj hbytes (by simp [hflen])
  obtain ⟨hbody, hpad⟩ := List.append_inj hrest (by simp; omega)
  have hframe' := (Framed.mutated ⟨hl, hstart, hroom, header, hhead, hframe⟩ hsame).bytes
  obtain ⟨header', hhead', hread'⟩ := hframe'
  cases hhead.symm.trans hhead'
  refine ⟨hl.viewsAt, hstart, hroom, header, hhead, ?_⟩
  have hinside : ∀ q : ℕ, (∀ x ∈ a.arrays, ¬ (x.1 ≤ q ∧ q < x.1 + x.2.nbytes)) →
      m' (binary.base + (a.dataStart + q : ℕ)) = m (binary.base + (a.dataStart + q : ℕ)) := by
    intro q hout
    refine hsame _ fun y hy htouch => ?_
    obtain ⟨x, hx, rfl⟩ := List.mem_map.mp hy
    obtain ⟨hlo, hhi⟩ := touches_decodedView.mp htouch
    exact hout x hx (by omega)
  have hbody' := read_viewsAt hl hbody fun q _ _ hout => hinside q hout
  have hpad' : m'.read (binary.base + (a.dataStart + 0 : ℕ) + a.dataBytes)
      (a.totalSize - (a.dataStart + a.dataBytes)) =
      List.replicate (a.totalSize - (a.dataStart + a.dataBytes)) 0 := by
    rw [← hpad]
    refine Mem.read_congr fun i hi => ?_
    have hsame' := hinside (a.dataBytes + i) fun x hx hin => by
      have hx' : (x.1, x.2) ∈ a.arrays := hx
      have hin' := (hl.mem_bounds hx').2
      omega
    rwa [show binary.base + (a.dataStart + (a.dataBytes + i) : ℕ) =
      binary.base + (a.dataStart + 0 : ℕ) + a.dataBytes + i by omega] at hsame'
  have htotal' : (a.decoded binary.base).totalSize = a.totalSize := rfl
  rw [htotal', hparts, hread', hbody', hpad', containerBytes, List.append_assoc]
  rfl

/-! ## The decoded tree -/

theorem inline_normal (J : JsonForm) (pt : Tree Placed) :
    (pt.subst (Placed.normal J)).leaves.filterMap Placed.inline? =
      pt.leaves.filterMap Placed.inline? := by
  rw [Tree.leaves_subst, List.filterMap_flatMap, ← List.flatMap_singleton' pt.leaves,
    List.filterMap_flatMap, List.flatMap_singleton']
  refine List.flatMap_congr fun p _ => ?_
  cases p with
  | scalar s =>
    have hnone : (Placed.inline? ∘ Placed.scalar) = fun _ => none := rfl
    rw [Placed.normal, Tree.leaves_map, List.filterMap_map, hnone]
    simp [Placed.inline?]
  | inline relOffset node => rfl
  | external ref => rfl

theorem arraysOf_resolved (base : ℤ) (dataStart : ℕ) (pt : Tree Placed) :
    arraysOf (pt.map (Placed.resolved base dataStart)) =
      (viewsAt base dataStart (pt.leaves.filterMap Placed.inline?)).map Prod.snd := by
  rw [arraysOf, Tree.leaves_map, List.filterMap_map, viewsAt, List.map_map, List.map_filterMap]
  refine List.filterMap_congr fun p _ => ?_
  cases p with
  | scalar s => rfl
  | inline relOffset node => rfl
  | external ref => rfl

theorem arraysOf_source (pt : Tree Placed) :
    arraysOf (pt.map Placed.source) = (pt.leaves.filterMap Placed.inline?).map Prod.snd := by
  rw [arraysOf, Tree.leaves_map, List.filterMap_map, List.map_filterMap]
  refine List.filterMap_congr fun p _ => ?_
  cases p with
  | scalar s => rfl
  | inline relOffset node => rfl
  | external ref => rfl

theorem disjoint_viewsAt {base : ℤ} {dataStart c e : ℕ} {arrays : List (ℕ × NdArray)}
    (hl : Laid c arrays e) :
    ((viewsAt base dataStart arrays).map Prod.snd).Pairwise fun node node' =>
      ∀ x, ¬ (node.Touches x ∧ node'.Touches x) := by
  rw [viewsAt, List.map_map]
  refine List.Pairwise.map _ (fun x y hle z hz => ?_) hl.disjoint
  have hx := touches_decodedView.mp hz.1
  have hy := touches_decodedView.mp hz.2
  omega

variable {model : Model} {w : World σ} {pt : Tree Placed} {s : Scan σ}

/-- What `decode` makes of a container of `a`, wherever the reader stands. -/
structure DecodesTo (J : JsonForm) (binary : Buffer) (a : Analysis) (pt : Tree Placed)
    (kvs : List (String × Tree Leaf)) : Prop where
  resolved : (pt.subst (Placed.normal J)).map (Placed.resolved binary.base a.dataStart) = .dict kvs
  arrays : arraysOf (.dict kvs) = (viewsAt binary.base a.dataStart a.arrays).map Prod.snd

theorem Described.decodesTo (hd : Described R J model w pt s a) (binary : Buffer) :
    ∃ kvs, DecodesTo J binary a pt kvs := by
  obtain ⟨items, hitems⟩ := Tree.eq_dict_of_map (hd.source.trans rfl : pt.map _ = .dict _)
  have hresolved : ∃ kvs, (pt.subst (Placed.normal J)).map
      (Placed.resolved binary.base a.dataStart) = .dict kvs := by
    rw [hitems, Tree.subst_dict, Tree.map_dict]
    exact ⟨_, rfl⟩
  obtain ⟨kvs, hkvs⟩ := hresolved
  have harrays : a.arrays = s.arrays := congrArg Analysis.arrays hd.analysis
  refine ⟨kvs, hkvs, ?_⟩
  rw [← hkvs, arraysOf_resolved, inline_normal, placeTree_inlineLeaves hd.places, harrays]

theorem DecodesTo.form {kvs : List (String × Tree Leaf)} (hkvs : DecodesTo J binary a pt kvs)
    (hd : Described R J model w pt s a) (hholds : Holds m binary a w.mem) :
    formOf J m (.dict kvs) = formOf J w.mem model.tree := by
  rw [← hkvs.resolved, form_resolved hholds hd.inlined, hd.source]

theorem DecodesTo.decodeAuto {kvs : List (String × Tree Leaf)}
    (hkvs : DecodesTo J binary a pt kvs) (hd : Described R J model w pt s a) {v : World σ}
    (hframed : Framed v.mem binary a) (writeable : Bool) :
    Npb.decodeAuto R (.array binary.toArray writeable) none v = .ok kvs v := by
  have hnormal := normal_inlineIn (J := J) hd.inlined
  have hbind : Tree.bindM (restorePlaced R binary a.dataStart a.dataBytes none)
      (pt.subst (Placed.normal J)) v = .ok (.dict kvs) v := by
    rw [← hkvs.resolved]
    exact Tree.bindM_pure _ fun p hp => restorePlaced_framed hframed (hnormal p hp)
  rw [decodeAuto_placed hframed (noMarkers_normal hd.markers)
    (by rw [subst_render_normal]; exact hd.reads), bind_ok hbind]
  rfl

theorem DecodesTo.decode {kvs : List (String × Tree Leaf)} (hkvs : DecodesTo J binary a pt kvs)
    (hd : Described R J model w pt s a) {v : World σ} (hframed : Framed v.mem binary a)
    {α : Type} (modelValidate : List (String × Tree Leaf) → Py σ α) (writeable : Bool) :
    Npb.decode R model.cls modelValidate (.array binary.toArray writeable) none v =
      modelValidate kvs v := by
  have hnormal := normal_inlineIn (J := J) hd.inlined
  have hauto := hkvs.decodeAuto hd hframed writeable
  refine decode_container hframed hd.identity hauto ?_
  rw [Bool.eq_false_iff, Ne, containsUnresolvedBlobRef_iff, ← hkvs.resolved, Tree.leaves_map]
  intro hunresolved
  obtain ⟨ref, href⟩ := hunresolved
  obtain ⟨p, hp, he⟩ := List.mem_map.mp href
  have hin := hnormal p hp
  cases p with
  | scalar s => cases he
  | inline relOffset node => cases he
  | external ref' => exact hin

/-! ## Encoding what the buffer holds now -/

theorem DecodesTo.analyze {kvs : List (String × Tree Leaf)} (hkvs : DecodesTo J binary a pt kvs)
    (hd : Described R J model w pt s a) (hholds : Holds m binary a w.mem)
    {model' : Model} {v : World σ}
    (hid : schemaIdentity model'.cls = schemaIdentity model.cls)
    (hform : formOf J v.mem model'.tree = formOf J m' (.dict kvs)) :
    ∃ a', analyzeModel R model' none none v = .ok a' v ∧
      (a.decoded binary.base).SameForm a' m' v.mem := by
  have hsame := hkvs.form hd hholds
  have htree : Model.tree ⟨model.cls, Value.ofItems kvs⟩ = .dict kvs :=
    tree_plainValidate model.cls kvs
  have hvalid := validate_of_form hsame hd.valid
  obtain ⟨pt', s', hplace, -, hsource⟩ := placeTree_inline hvalid w
  -- The decoded tree is placed as the model was.
  have hlay := placeTree_form J w.mem hd.places
  have hlay' := placeTree_form J m hplace
  rw [hsame, hlay] at hlay'
  obtain ⟨hmanifest, hforms⟩ := EStateM.Result.ok.inj hlay'
  obtain ⟨hoffsets, hcursor⟩ := FormScan.mk.inj hforms
  have harrays : a.arrays = s.arrays := congrArg Analysis.arrays hd.analysis
  have hbytes : a.dataBytes = s.cursor := congrArg Analysis.dataBytes hd.analysis
  have hsnd : s'.arrays.map Prod.snd =
      (viewsAt binary.base a.dataStart a.arrays).map Prod.snd := by
    rw [← hkvs.arrays, ← hsource, arraysOf_source, placeTree_inlineLeaves hplace]
  have hfst : s'.arrays.map Prod.fst =
      (viewsAt binary.base a.dataStart a.arrays).map Prod.fst := by
    have hfst' := congrArg (List.map Prod.fst) hoffsets
    rw [List.map_map, List.map_map] at hfst'
    rw [viewsAt, List.map_map, harrays]
    exact hfst'.symm
  have hviews : s'.arrays = viewsAt binary.base a.dataStart a.arrays :=
    (List.zip_of_prod hfst hsnd).trans (List.zip_of_prod rfl rfl).symm
  have hplaceTree : placeTree none none (Model.mk model.cls (Value.ofItems kvs)).tree ⟨w, [], 0⟩ =
      .ok pt' s' := by
    rw [htree]
    exact hplace
  refine analyzeModel_form ?_ (hid.trans hd.identity) hplaceTree (fun manifest' h => ?_)
    (by rw [htree]; exact hvalid) (by rw [htree]; exact hform)
  · rw [hviews, ← hcursor, ← hbytes]
    have hstart : a.dataStart = alignUp (headerSize + a.metadataJson.length) frameSize :=
      congrArg Analysis.dataStart hd.analysis
    show (⟨a.schemaId, a.schemaVersion, a.dataBytes, a.dataStart, _, a.metadataJson⟩ : Analysis) = _
    rw [hstart]
    rfl
  · exact hd.writes _ (h.trans hmanifest.symm)

end Container

/-- What can be said of a published buffer once its arrays `kvs` are in use: they do not overlap,
a reader gets the same arrays after any write to them, and the buffer then holds what encoding the
changed model would produce. -/
structure WriteThrough (R : Runtime) (J : JsonForm) (model : Model) (mem : Mem) (binary : Buffer)
    (kvs : List (String × Tree Leaf)) : Prop where
  disjoint : (arraysOf (.dict kvs)).Pairwise fun node node' =>
    ∀ x, ¬ (node.Touches x ∧ node'.Touches x)
  decodes : ∀ v : World σ, MutatedIn (.dict kvs) mem v.mem →
    ∀ (α : Type) (modelValidate : List (String × Tree Leaf) → Py σ α) (writeable : Bool),
      decode R model.cls modelValidate (.array binary.toArray writeable) none v =
        modelValidate kvs v
  encodes : ∀ m : Mem, MutatedIn (.dict kvs) mem m → ∀ (model' : Model) (v : World σ),
    schemaIdentity model'.cls = schemaIdentity model.cls →
    (∀ l ∈ model'.tree.leaves, l.Held v) →
    formOf J v.mem model'.tree = formOf J m (.dict kvs) →
    (∃ out v', encode R model' none none none v = .ok out v' ∧
      out.bytes v'.mem = binary.bytes m) ∨
    (encode R model' none none none v = .error .memoryError v ∧
      R.alloc v.live binary.size = none)

/-- Whatever is written through the arrays that `decode` returned, every reader of the buffer gets
the same arrays, and the buffer holds what encoding the model as it is now would produce. -/
theorem mutation_encodes {R : Runtime} {J : JsonForm} {model : Model} {w w' : World σ}
    {binary : Buffer} (hfresh : R.AllocatesFresh)
    (hleaves : ∀ l ∈ model.tree.leaves, l.Carried R w) (hmarkers : NoMarkers model.tree)
    (hjson : ∀ manifest arrays n w₁,
      buildManifest none none model.modelDump w = .ok (manifest, arrays, n) w₁ →
      R.JsonStable J manifest)
    (hencode : encode R model none none none w = .ok binary w') :
    ∃ kvs, formOf J w'.mem (.dict kvs) = formOf J w.mem model.tree ∧
      WriteThrough (σ := σ) R J model w'.mem binary kvs := by
  obtain ⟨pt, s, a, hd, hpublished⟩ := encode_described hfresh hleaves hmarkers hjson hencode
  obtain ⟨hholds, hsize, -⟩ := hpublished
  obtain ⟨kvs, hkvs⟩ := hd.decodesTo binary
  have hsame : ∀ m, MutatedIn (.dict kvs) w'.mem m →
      ∀ x, (∀ y ∈ viewsAt binary.base a.dataStart a.arrays, ¬ y.2.Touches x) →
        m x = w'.mem x := by
    intro m hm x hx
    refine hm x fun node hnode => ?_
    rw [hkvs.arrays] at hnode
    obtain ⟨y, hy, rfl⟩ := List.mem_map.mp hnode
    exact hx y hy
  refine ⟨kvs, ?_, ?_, fun v hv α modelValidate writeable => ?_, ?_⟩
  · exact hkvs.form hd hholds
  · rw [hkvs.arrays]
    exact disjoint_viewsAt hholds.laid
  · exact hkvs.decode hd (hholds.framed.mutated (hsame _ hv)) modelValidate writeable
  · intro m hm model' v hid hheld hform
    obtain ⟨a', ha', hsameForm⟩ := hkvs.analyze hd hholds hid hform
    have htotal : a'.totalSize = a.totalSize := hsameForm.totalSize
    have hpack : packHeader a' = packHeader a := hsameForm.packHeader
    have hfits : a'.HeaderFits := by
      rw [← packHeader_isOk_iff, hpack]
      exact (packHeader_isOk_iff a).mpr hd.fits
    rw [hsize, ← htotal]
    cases encode_published hfresh ha' hfits (by rw [htotal]; exact hd.size) hheld with
    | inl hok =>
      obtain ⟨out, v', hrun, hout, -⟩ := hok
      refine .inl ⟨out, v', hrun, ?_⟩
      have hnow := hholds.mutated (hsame m hm)
      have hthen := hout.holds.of_form hsameForm hnow.laid
      rw [Buffer.bytes, Buffer.bytes, hout.size, hsize, htotal]
      exact hnow.read_eq hthen
    | inr herror => exact .inr herror

theorem mutation_encodes_oneArray : ∃ binary w,
    encode oneArrayRuntime.careful oneArray none none none oneArrayWorld = .ok binary w ∧
    ∃ kvs, formOf .same w.mem (.dict kvs) = formOf .same oneArrayWorld.mem oneArray.tree ∧
      WriteThrough (σ := Unit) oneArrayRuntime.careful .same oneArray w.mem binary kvs := by
  obtain ⟨binary, w, hencode, -⟩ := encode_oneArray oneArrayWorld.mem
  exact ⟨binary, w, hencode, mutation_encodes (careful_fresh _)
    (carried_oneArray oneArrayWorld.mem) noMarkers_oneArray (jsonStable_oneArray oneArrayWorld.mem)
    hencode⟩

end Npb
