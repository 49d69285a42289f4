import Npb.Codec.Externalise
import Npb.Codec.Overwrite

/-! # The sections of every container

The sizes and offsets of a container, whatever the model, the store, the threshold and the output:
how the arrays fill the DATA section (`Laid.packed`), and that header, metadata, `encoded_size` and
the returned length agree about it (`encode_layout`). -/

namespace Npb
set_option autoImplicit false
open Effects Numpy

variable {σ : Type}

/-- The arrays fill `dataBytes` bytes in this order, each at a multiple of 64 and less than 64 bytes
behind the one before it. -/
structure Packed (arrays : List (ℕ × NdArray)) (dataBytes : ℕ) : Prop where
  aligned : ∀ x ∈ arrays, 64 ∣ x.1
  nondecreasing : arrays.Pairwise fun x y => x.1 ≤ y.1
  disjoint : arrays.Pairwise fun x y => x.1 + x.2.nbytes ≤ y.1
  gaps : arrays.IsChain fun x y => y.1 < x.1 + x.2.nbytes + 64
  first : ∀ x ∈ arrays.head?, x.1 = 0
  last : ∀ x ∈ arrays.getLast?, x.1 + x.2.nbytes = dataBytes
  nothing : arrays = [] → dataBytes = 0

section Laid
variable {c e : ℕ} {arrays : List (ℕ × NdArray)}

theorem Laid.aligned (h : Laid c arrays e) : ∀ x ∈ arrays, arrayAlignment ∣ x.1 := by
  induction arrays generalizing c with
  | nil => simp
  | cons x arrays ih =>
    obtain ⟨hoff, hrest⟩ := h
    intro y hy
    obtain rfl | hy := List.mem_cons.mp hy
    · rw [hoff]
      exact alignUp_dvd c
    · exact ih hrest y hy

theorem Laid.disjoint (h : Laid c arrays e) :
    arrays.Pairwise fun x y => x.1 + x.2.nbytes ≤ y.1 := by
  induction arrays generalizing c with
  | nil => exact .nil
  | cons x arrays ih =>
    obtain ⟨hoff, hrest⟩ := h
    exact .cons (fun y hy => (hrest.mem_bounds hy).1) (ih hrest)

theorem Laid.gaps (h : Laid c arrays e) :
    arrays.IsChain fun x y => y.1 < x.1 + x.2.nbytes + arrayAlignment := by
  induction arrays generalizing c with
  | nil => exact .nil
  | cons x arrays ih =>
    obtain ⟨hoff, hrest⟩ := h
    cases arrays with
    | nil => exact .singleton x
    | cons y arrays =>
      refine .cons_cons ?_ (ih hrest)
      rw [hrest.1]
      exact alignUp_lt _ (by decide)

theorem Laid.last (h : Laid c arrays e) : ∀ x ∈ arrays.getLast?, x.1 + x.2.nbytes = e := by
  induction arrays generalizing c with
  | nil => simp
  | cons x arrays ih =>
    obtain ⟨hoff, hrest⟩ := h
    cases arrays with
    | nil =>
      have he : e = x.1 + x.2.nbytes := hrest
      simp [he]
    | cons y arrays =>
      rw [List.getLast?_cons_cons]
      exact ih hrest

theorem Laid.packed (h : Laid 0 arrays e) : Packed arrays e where
  aligned := h.aligned
  nondecreasing := h.disjoint.imp fun hle => (Nat.le_add_right _ _).trans hle
  disjoint := h.disjoint
  gaps := h.gaps
  first := by
    cases arrays with
    | nil => simp
    | cons x arrays => simpa using h.1.trans (show alignUp 0 arrayAlignment = 0 by decide)
  last := h.last
  nothing := by
    intro hnil
    subst hnil
    exact h

end Laid

/-! ## The references of the manifest -/

def Placed.inline? : Placed → Option (ℕ × NdArray)
  | .inline relOffset a => some (relOffset, a)
  | _ => none

/-- The manifest names the arrays of the layout, in the same order. -/
theorem placeTree_inlineLeaves {blobStore : Option (BlobStore σ)} {externalizeMinBytes : Option ℤ}
    {t : Tree Leaf} {w : World σ} {pt : Tree Placed} {s : Scan σ}
    (h : placeTree blobStore externalizeMinBytes t ⟨w, [], 0⟩ = .ok pt s) :
    pt.leaves.filterMap Placed.inline? = s.arrays := by
  have htrace := Tree.bindM_trace (T := fun _ ps (s s' : Scan σ) =>
      s'.arrays = s.arrays ++ ps.filterMap Placed.inline?)
    (fun s => by simp)
    (fun _ _ ps qs s₁ s₂ s₃ h₁ h₂ => by
      rw [h₂, h₁, List.filterMap_append, List.append_assoc]) t
    (fun l s y s' hrun => by
      rcases placeLeaf_ok hrun with ⟨v, rfl, rfl, rfl⟩ | ⟨ref, rfl, rfl, rfl⟩ |
        ⟨a, store, ref, w', rfl, -, -, -, rfl, rfl⟩ | ⟨a, rfl, -, -, rfl, rfl⟩
      · simp [Placed.inline?]
      · simp [Placed.inline?]
      · simp [Placed.inline?]
      · simp [Placed.inline?]) h
  simpa using htrace.symm

/-! ## The layout of a container -/

/-- What the header `info` says about the container in `binary`, whose inline arrays lie at the
offsets `arrays` gives them. -/
structure ContainerLayout (R : Runtime) (model : Model) (blobStore : Option (BlobStore σ))
    (externalizeMinBytes : Option ℤ) (mem : Mem) (binary : Buffer) (info : BinaryInfo)
    (arrays : List (ℕ × NdArray)) : Prop where
  inline : arrays.map Prod.snd = inlineArrays blobStore externalizeMinBytes model.tree.leaves
  manifest : ∃ pt : Tree Placed, pt.leaves.filterMap Placed.inline? = arrays ∧
    R.toJson jsonFallback (pt.subst Placed.render) =
      .ok (((binary.bytes mem).drop headerSize).take info.metadataBytes)
  packed : Packed arrays info.dataBytes
  data_start : IsLeast {n | frameSize ∣ n ∧ 64 + info.metadataBytes ≤ n} info.dataStart
  length : IsLeast {n | 0 < n ∧ frameSize ∣ n ∧ info.dataStart + info.dataBytes ≤ n} binary.size
  total : info.totalBytes = binary.size
  identity : schemaIdentity model.cls = .ok (info.schemaId, info.schemaVersion)

theorem totalSize_isLeast (a : Analysis) :
    IsLeast {n | 0 < n ∧ frameSize ∣ n ∧ a.dataStart + a.dataBytes ≤ n} a.totalSize := by
  refine ⟨⟨?_, alignUp_dvd _, le_totalSize a⟩, ?_⟩
  · exact (show 0 < frameSize by decide).trans_le (frameSize_le_totalSize a)
  · intro n hn
    obtain ⟨hpos, hdvd, hle⟩ := hn
    exact alignUp_le_of_dvd hdvd (max_le hle (Nat.le_of_dvd hpos hdvd))

theorem threshold_none {externalizeMinBytes : Option ℤ}
    (h : checkThreshold (none : Option (BlobStore σ)) externalizeMinBytes = .ok ()) :
    externalizeMinBytes = none := by
  cases externalizeMinBytes with
  | none => rfl
  | some t =>
    rw [checkThreshold] at h
    by_cases ht : t < 0
    · rw [if_pos ht] at h
      cases h
    · rw [if_neg ht] at h
      cases h

theorem encodedSize_of_analysis {R : Runtime} {model : Model} {blobStore : Option (BlobStore σ)}
    {externalizeMinBytes : Option ℤ} {w w₁ : World σ} {a : Analysis}
    (ha : analyzeModel R model blobStore externalizeMinBytes w = .ok a w₁) :
    encodedSize R model blobStore externalizeMinBytes w = .ok a.totalSize w₁ := by
  rw [encodedSize, bind_ok ha, pure_run]

/-- Every container `encode` returns has this layout, `parse_header` reads it off again, and
without a store `encoded_size` computes the same length. -/
theorem encode_layout {R : Runtime} {model : Model} {out : Option Argument}
    {blobStore : Option (BlobStore σ)} {externalizeMinBytes : Option ℤ} {w w' : World σ}
    {binary : Buffer}
    (h : encode R model out blobStore externalizeMinBytes w = .ok binary w') :
    ∃ info arrays,
      ContainerLayout R model blobStore externalizeMinBytes w'.mem binary info arrays ∧
      (∀ writeable, parseHeader (.array binary.toArray writeable) w' = .ok (binary, info) w') ∧
      (blobStore = none → ∀ v : World σ,
        encodedSize R model blobStore externalizeMinBytes v = .ok binary.size v) := by
  obtain ⟨a, w₁, w₂, ha, hacquire, hframed, -, -, -⟩ := encode_framed h
  have hsize := (acquireOutput_ok hacquire).1
  have haccepted := parseHeaderIn_eq_ok.mp (parseHeaderIn_container hframed)
  have hmetadata := metadata_container hframed
  refine ⟨a.info, a.arrays, ?_, parseHeader_run haccepted, ?_⟩
  · obtain ⟨schemaId, schemaVersion, pt, s, metadataJson, hid, -, hplace, hjson, rfl, -⟩ :=
      analyzeModel_ok.mp ha
    refine ⟨placeTree_inlineArrays hplace, ⟨pt, placeTree_inlineLeaves hplace, ?_⟩,
      hframed.laid.packed, alignUp_isLeast _ (by decide), ?_, hsize.symm, hid⟩
    · exact hjson.trans (congrArg Except.ok hmetadata.symm)
    · rw [hsize]
      exact totalSize_isLeast _
  · rintro rfl v
    obtain ⟨schemaId, schemaVersion, pt, s, metadataJson, -, hthreshold, -⟩ := analyzeModel_ok.mp ha
    obtain rfl := threshold_none hthreshold
    rw [hsize]
    exact encodedSize_of_analysis (analyzeModel_offline ha v).1

theorem encode_layout_oneArray :
    ∃ binary w', encode oneArrayRuntime oneArray none none none oneArrayWorld = .ok binary w' ∧
      ∃ info arrays,
        ContainerLayout oneArrayRuntime oneArray (none : Option (BlobStore Unit)) none w'.mem binary
          info arrays ∧
        (∀ writeable, parseHeader (.array binary.toArray writeable) w' = .ok (binary, info) w') ∧
        ((none : Option (BlobStore Unit)) = none → ∀ v : World Unit,
          encodedSize oneArrayRuntime oneArray none none v = .ok binary.size v) := by
  have hfits : oneArrayAnalysis.HeaderFits :=
    ⟨by decide, by decide +kernel, by rw [totalSize_oneArray]; decide⟩
  obtain ⟨header, hhead⟩ := (packHeader_isOk_iff _).mpr hfits
  obtain ⟨binary, w', hrun, -⟩ := encode_overwrites (by simp) (analyzeModel_oneArray _) hhead
    (by rw [totalSize_oneArray]; exact providesOutput_oneArray)
  exact ⟨binary, w', hrun, encode_layout hrun⟩

end Npb
