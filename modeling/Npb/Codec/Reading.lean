import Npb.Codec.Container

/-! # Reading a container back

What the decoder finds in a buffer that starts with a container: the header it was packed with
(`parseHeaderIn_container`), the metadata (`metadata_container`), and behind every inline reference
a C-contiguous view of the bytes of its array (`restoreBin_binFields`, `content_container`). -/

namespace Npb
set_option autoImplicit false
open Effects Numpy

/-- The buffer starts with the header and the metadata of `a`. -/
structure Framed (m : Mem) (binary : Buffer) (a : Analysis) : Prop where
  laid : Laid 0 a.arrays a.dataBytes
  start : a.dataStart = alignUp (headerSize + a.metadataJson.length) frameSize
  room : a.totalSize ≤ binary.size
  bytes : ∃ header, packHeader a = .ok header ∧
    m.read binary.base a.dataStart = frame a header

/-- The buffer starts with the container of `a`, its arrays' bytes being those of `m₀`. -/
structure Holds (m : Mem) (binary : Buffer) (a : Analysis) (m₀ : Mem) : Prop where
  laid : Laid 0 a.arrays a.dataBytes
  start : a.dataStart = alignUp (headerSize + a.metadataJson.length) frameSize
  room : a.totalSize ≤ binary.size
  bytes : ∃ header, packHeader a = .ok header ∧
    m.read binary.base a.totalSize = containerBytes a header m₀

def Analysis.info (a : Analysis) : BinaryInfo where
  formatVersion := formatVersion
  frameSize := frameSize
  schemaId := a.schemaId
  schemaVersion := a.schemaVersion
  metadataBytes := a.metadataJson.length
  dataStart := a.dataStart
  dataBytes := a.dataBytes
  totalBytes := a.totalSize

theorem read_container {m : Mem} {base : ℤ} {bs : List UInt8} {n : ℕ} (h : m.read base n = bs)
    {k j : ℕ} (hkj : k + j ≤ n) : m.read (base + k) j = (bs.drop k).take j := by
  rw [← h, Mem.read_drop_take m base hkj]

section Container
variable {m m₀ : Mem} {binary : Buffer} {a : Analysis}

theorem Holds.framed (h : Holds m binary a m₀) : Framed m binary a := by
  obtain ⟨hl, hstart, hroom, header, hhead, hbytes⟩ := h
  have hflen := frame_length (packHeader_length hhead) (Analysis.frame_le hstart)
  have htotal := le_totalSize a
  have hread := read_container hbytes (show 0 + a.dataStart ≤ a.totalSize by omega)
  rw [Nat.cast_zero, add_zero, List.drop_zero, containerBytes, List.append_assoc,
    List.take_left' hflen] at hread
  exact ⟨hl, hstart, hroom, header, hhead, hread⟩

theorem parseHeaderIn_container (h : Framed m binary a) :
    parseHeaderIn m binary = .ok a.info := by
  obtain ⟨hl, hstart, hroom, header, hhead, hbytes⟩ := h
  have hh := packHeader_length hhead
  have hframe := Analysis.frame_le hstart
  have htotal := le_totalSize a
  have hone := frameSize_le_totalSize a
  have hread : m.read binary.base headerSize = header := by
    have hslice := read_container hbytes (show 0 + headerSize ≤ a.dataStart by omega)
    rw [Nat.cast_zero, add_zero, List.drop_zero, frame, List.append_assoc,
      List.take_left' hh] at hslice
    exact hslice
  have hpack : Struct.pack headerFormat (headerValues a) = some header := by
    unfold packHeader at hhead
    split at hhead
    · next hp => cases hhead; exact hp
    · cases hhead
  refine parseHeaderIn_eq_ok.mpr ⟨?_, rfl, rfl, hone, hroom, ?_, hframe, ?_, htotal⟩
  · rw [hread, ← List.append_nil header, Struct.unpack_pack hpack]
    rfl
  · exact Nat.mod_eq_zero_of_dvd (alignUp_dvd _)
  · rw [Analysis.info, hstart]
    exact Nat.mod_eq_zero_of_dvd (alignUp_dvd _)

theorem metadata_container (h : Framed m binary a) :
    ((binary.bytes m).drop headerSize).take a.metadataJson.length = a.metadataJson := by
  obtain ⟨hl, hstart, hroom, header, hhead, hbytes⟩ := h
  have hh := packHeader_length hhead
  have hframe := Analysis.frame_le hstart
  have htotal := le_totalSize a
  rw [Buffer.bytes, Mem.read_drop_take _ _ (by omega), read_container hbytes (by omega), frame]
  simp only [List.append_assoc]
  rw [List.drop_left' hh, List.take_left' rfl]

theorem array_container (h : Holds m binary a m₀) {relOffset : ℕ} {node : NdArray}
    (hmem : (relOffset, node) ∈ a.arrays) :
    m.read (binary.base + (a.dataStart + relOffset : ℕ)) node.nbytes = node.tobytes m₀ := by
  obtain ⟨hl, hstart, hroom, header, hhead, hbytes⟩ := h
  have hflen := frame_length (packHeader_length hhead) (Analysis.frame_le hstart)
  have hblen := body_length m₀ hl
  have hin := (hl.mem_bounds hmem).2
  have htotal := le_totalSize a
  have hdrop : (frame a header ++ body m₀ 0 a.arrays ++ List.replicate
      (a.totalSize - (a.dataStart + a.dataBytes)) 0).drop (a.dataStart + relOffset) =
      (body m₀ 0 a.arrays).drop relOffset ++
        List.replicate (a.totalSize - (a.dataStart + a.dataBytes)) 0 := by
    rw [← List.drop_drop, List.append_assoc, List.drop_left' hflen,
      List.drop_append_of_le_length (by omega)]
  have hlen : node.nbytes ≤ ((body m₀ 0 a.arrays).drop relOffset).length := by
    rw [List.length_drop]
    omega
  rw [read_container hbytes (by omega), containerBytes, hdrop, List.take_append_of_le_length hlen]
  exact body_slice m₀ hl hmem

theorem encode_holds {σ : Type} {R : Runtime} {model : Model} {out : Option Argument}
    {blobStore : Option (BlobStore σ)} {externalizeMinBytes : Option ℤ} {w w₁ w₂ : World σ}
    {header : List UInt8} (ha : analyzeModel R model blobStore externalizeMinBytes w = .ok a w₁)
    (hhead : packHeader a = .ok header)
    (hout : acquireOutput R a.totalSize out w₁ = .ok binary w₂)
    (hsurvive : SourcesSurvive w₂.mem binary.base (frame a header) 0 a.arrays) :
    ∃ w', encode R model out blobStore externalizeMinBytes w = .ok binary w' ∧
      Holds w'.mem binary a w₂.mem ∧ w'.live = w₂.live ∧ w'.store = w₂.store ∧
      ∀ x, ¬ binary.Contains x → w'.mem x = w₂.mem x := by
  obtain ⟨hl, hstart⟩ := analyzeModel_laid ha
  obtain ⟨hsize, -, -, -⟩ := acquireOutput_ok hout
  have hlen := containerBytes_length (m := w₂.mem) (packHeader_length hhead)
    (Analysis.frame_le hstart) hl
  refine ⟨_, encode_run ha hhead hout hsurvive, ⟨hl, hstart, Nat.le_of_eq hsize.symm, header, hhead,
    ?_⟩, rfl, rfl, ?_⟩
  · have hread := Mem.read_write_self w₂.mem binary.base (containerBytes a header w₂.mem)
    rwa [hlen] at hread
  · intro x hx
    apply Mem.write_of_not_mem
    rw [hlen, ← hsize]
    unfold Buffer.Contains at hx
    omega

/-- Whatever became of the arrays, an encoding that returns has left header and metadata. -/
theorem encode_framed {σ : Type} {R : Runtime} {model : Model} {out : Option Argument}
    {blobStore : Option (BlobStore σ)} {externalizeMinBytes : Option ℤ} {w w' : World σ}
    (h : encode R model out blobStore externalizeMinBytes w = .ok binary w') :
    ∃ a w₁ w₂, analyzeModel R model blobStore externalizeMinBytes w = .ok a w₁ ∧
      acquireOutput R a.totalSize out w₁ = .ok binary w₂ ∧ Framed w'.mem binary a ∧
      w'.live = w₂.live ∧ w'.store = w₂.store ∧ a.HeaderFits := by
  obtain ⟨a, w₁, w₂, header, ha, hacquire, hhead⟩ := encode_parts h
  obtain ⟨hl, hstart⟩ := analyzeModel_laid ha
  obtain ⟨hsize, -, -, -⟩ := acquireOutput_ok hacquire
  have hflen := frame_length (packHeader_length hhead) (Analysis.frame_le hstart)
  have htotal := le_totalSize a
  obtain ⟨rest, hlen, hrun⟩ := encode_written ha hhead hacquire
  cases hrun.symm.trans h
  have hread := Mem.read_write_self w₂.mem binary.base (frame a header ++ rest)
  rw [hlen] at hread
  have hframe := read_container hread (show 0 + a.dataStart ≤ a.totalSize by omega)
  rw [Nat.cast_zero, add_zero, List.drop_zero, List.take_left' hflen] at hframe
  exact ⟨a, w₁, w₂, ha, hacquire, ⟨hl, hstart, Nat.le_of_eq hsize.symm, header, hhead, hframe⟩,
    rfl, rfl, (packHeader_isOk_iff a).mp ⟨header, hhead⟩⟩

/-! ## The decoders on a container -/

variable {σ : Type} {R : Runtime} {blobStore : Option (BlobStore σ)}

theorem parseHeader_eq_ok {arg : Argument} {w w' : World σ} {info : BinaryInfo} :
    parseHeader arg w = .ok (binary, info) w' ↔
      requireBinaryArray arg = .ok binary ∧ Accepted w.mem binary info ∧ w' = w := by
  constructor
  · intro h
    rw [parseHeader, bind_eq_ok] at h
    obtain ⟨b, w₁, hrequire₀, h⟩ := h
    obtain ⟨hrequire, rfl⟩ := fromExcept_eq_ok.mp hrequire₀
    rw [bind_eq_ok] at h
    obtain ⟨w₂, w₃, hget, h⟩ := h
    cases hget
    rw [bind_eq_ok] at h
    obtain ⟨info', w₄, hparse₀, h⟩ := h
    obtain ⟨hparse, rfl⟩ := fromExcept_eq_ok.mp hparse₀
    cases h
    exact ⟨hrequire, parseHeaderIn_eq_ok.mp hparse, rfl⟩
  · rintro ⟨hrequire, haccepted, rfl⟩
    refine (bind_ok (fromExcept_eq_ok.mpr ⟨hrequire, rfl⟩) _).trans ?_
    refine (bind_ok (get_run w') _).trans ?_
    exact (bind_ok (fromExcept_eq_ok.mpr ⟨parseHeaderIn_eq_ok.mpr haccepted, rfl⟩) _).trans rfl

theorem parseHeader_run {w : World σ} {info : BinaryInfo} (h : Accepted w.mem binary info)
    (writeable : Bool) :
    parseHeader (.array binary.toArray writeable) w = .ok (binary, info) w :=
  parseHeader_eq_ok.mpr ⟨requireBinaryArray_toArray binary writeable, h, rfl⟩

theorem decodeTree_container {w : World σ} (h : Framed w.mem binary a) {manifest : Json}
    (hjson : R.fromJson a.metadataJson = .ok manifest) :
    decodeTree R binary a.info blobStore w = (do
      let tree ← restoreTree R binary a.dataStart a.dataBytes blobStore manifest
      fromExcept (topLevel tree)) w := by
  have hparse : parseMetadata R (((binary.bytes w.mem).drop headerSize).take
      a.info.metadataBytes) = .ok manifest := by
    rw [Analysis.info, metadata_container h, parseMetadata, hjson, catching_ok]
  unfold decodeTree
  refine (bind_ok (get_run w) _).trans ?_
  exact (bind_ok (fromExcept_eq_ok.mpr ⟨hparse, rfl⟩) _).trans rfl

theorem decodeAuto_container {w : World σ} (h : Framed w.mem binary a) {manifest : Json}
    (hjson : R.fromJson a.metadataJson = .ok manifest) (writeable : Bool) :
    decodeAuto R (.array binary.toArray writeable) blobStore w = (do
      let tree ← restoreTree R binary a.dataStart a.dataBytes blobStore manifest
      fromExcept (topLevel tree)) w := by
  have hheader := parseHeader_run (parseHeaderIn_eq_ok.mp (parseHeaderIn_container h)) writeable
  rw [decodeAuto, bind_ok hheader]
  exact decodeTree_container h hjson

section Typed
variable {α : Type} {cls : ModelClass} {modelValidate : List (String × Tree Leaf) → Py σ α}
  {w w' : World σ} {writeable : Bool} {kvs : List (String × Tree Leaf)}

def blobStoreRequired : PyError := .blobStoreRequiredError
  ("this NPB message contains external blob references; " ++
    "pass the matching blob_store=... to decode()")

/-- The class's schema is the one in the header: `decode` gets as far as the decoded tree. -/
theorem decodeChecked_run (h : Framed w.mem binary a)
    (hid : schemaIdentity cls = .ok (a.schemaId, a.schemaVersion)) :
    decodeChecked R cls (.array binary.toArray writeable) blobStore w =
      (decodeAuto R (.array binary.toArray writeable) blobStore >>= fun kvs =>
        fromExcept (raiseIf (containsUnresolvedBlobRef (.dict kvs)) blobStoreRequired) >>= fun _ =>
          pure kvs) w := by
  have hheader := parseHeader_run (parseHeaderIn_eq_ok.mp (parseHeaderIn_container h)) writeable
  have hauto : decodeAuto R (.array binary.toArray writeable) blobStore w =
      decodeTree R binary a.info blobStore w := by
    rw [decodeAuto, bind_ok hheader]
  rw [bind_run, hauto, ← bind_run]
  unfold decodeChecked
  refine (bind_ok (fromExcept_eq_ok.mpr ⟨hid, rfl⟩) _).trans ?_
  refine (bind_ok hheader _).trans ?_
  refine (bind_ok (fromExcept_eq_ok.mpr ⟨raiseIf_eq_ok.mpr (by simp [Analysis.info]), rfl⟩)
    _).trans ?_
  exact bind_ok (fromExcept_eq_ok.mpr ⟨raiseIf_eq_ok.mpr (by simp [Analysis.info]), rfl⟩) _

theorem decodeChecked_container (h : Framed w.mem binary a)
    (hid : schemaIdentity cls = .ok (a.schemaId, a.schemaVersion))
    (hauto : decodeAuto R (.array binary.toArray writeable) blobStore w = .ok kvs w') :
    decodeChecked R cls (.array binary.toArray writeable) blobStore w =
      fromExcept (raiseIf (containsUnresolvedBlobRef (.dict kvs)) blobStoreRequired >>= fun _ =>
        .ok kvs) w' := by
  rw [decodeChecked_run h hid, bind_ok hauto, ← fromExcept_bind]
  rfl

theorem decode_container (h : Framed w.mem binary a)
    (hid : schemaIdentity cls = .ok (a.schemaId, a.schemaVersion))
    (hauto : decodeAuto R (.array binary.toArray writeable) blobStore w = .ok kvs w')
    (hresolved : containsUnresolvedBlobRef (.dict kvs) = false) :
    decode R cls modelValidate (.array binary.toArray writeable) blobStore w =
      modelValidate kvs w' := by
  have hchecked := decodeChecked_container h hid hauto
  rw [raiseIf_bind (by simp [hresolved])] at hchecked
  rw [decode, bind_ok hchecked]

end Typed
end Container

/-! ## Inline references -/

theorem prod_natCast (shape : List ℕ) :
    (shape.map fun d : ℕ => (d : ℤ)).prod = (shape.prod : ℕ) := by
  induction shape with
  | nil => rfl
  | cons d shape ih => rw [List.map_cons, List.prod_cons, List.prod_cons, ih, Nat.cast_mul]

theorem mapM_pyInt_natCast (f : String → Option ℤ) (shape : List ℕ) :
    (shape.map fun d : ℕ => (.leaf (.int d) : Json)).mapM (pyInt f) =
      .ok (shape.map fun d : ℕ => (d : ℤ)) := by
  rw [← mapM_pyInt f, List.map_map]
  rfl

theorem map_toNat_natCast (shape : List ℕ) :
    (shape.map fun d : ℕ => (d : ℤ)).map Int.toNat = shape := by
  rw [List.map_map]
  exact (List.map_congr_left fun d _ => Int.toNat_natCast d).trans (List.map_id shape)

theorem natCast_of_nonneg {shape : List ℤ} (h : ∀ d ∈ shape, 0 ≤ d) :
    ∃ dims : List ℕ, shape = dims.map fun d : ℕ => (d : ℤ) := by
  refine ⟨shape.map Int.toNat, ?_⟩
  rw [List.map_map]
  conv_lhs => rw [← List.map_id shape]
  exact List.map_congr_left fun d hd => (Int.toNat_of_nonneg (h d hd)).symm

/-- The reference a `$bin` mapping with these natural numbers converts to. -/
def BinRef.ofNat (relOffset nbytes : ℕ) (dtype : NpDtype) (shape : List ℕ) : BinRef :=
  ⟨relOffset, nbytes, dtype, shape.map fun d : ℕ => (d : ℤ)⟩

/-- What the `$bin` branch checks of a reference before it makes the view. -/
structure BinRef.Sound (dataBytes : ℕ) (dtype : NpDtype) (relOffset nbytes : ℕ)
    (shape : List ℕ) : Prop where
  object : dtype.hasobject = false
  fields : dtype.hasfields = false
  item : dtype.itemsize ≠ 0
  bytes : shape.prod * dtype.itemsize = nbytes
  inside : relOffset + nbytes ≤ dataBytes

section ViewBin
variable {binary : Buffer} {dataStart dataBytes : ℕ}

theorem viewBin_of_sound (hroom : dataStart + dataBytes ≤ binary.size) {dtype : NpDtype}
    {relOffset nbytes : ℕ} {shape : List ℕ}
    (h : BinRef.Sound dataBytes dtype relOffset nbytes shape) :
    viewBin binary dataStart dataBytes (.ofNat relOffset nbytes dtype shape) = (do
      let flat ← elementsAt (binary.base + (dataStart + relOffset : ℕ)) dtype shape.prod
      reshape flat (shape.map fun d : ℕ => (d : ℤ))) := by
  obtain ⟨hobject, hfields, hitem, hbytes, hinside⟩ := h
  have hprod := prod_natCast shape
  have hdtype : ¬ (dtype.hasobject || dtype.hasfields) = true := by
    rw [hobject, hfields]
    decide
  have hneg : ¬ (shape.map fun d : ℕ => (d : ℤ)).any (· < 0) = true := by
    rw [List.any_eq_true]
    rintro ⟨d, hd, hlt⟩
    obtain ⟨n, -, rfl⟩ := List.mem_map.mp hd
    have := of_decide_eq_true hlt
    omega
  have hexpected : ((shape.prod : ℕ) : ℤ) * dtype.itemsize = nbytes := by
    rw [← hbytes, Nat.cast_mul]
  have hmod : (nbytes : ℤ) % dtype.itemsize = 0 := by rw [← hexpected, Int.mul_emod_left]
  have hoffset : (dataStart : ℤ) + relOffset = ((dataStart + relOffset : ℕ) : ℤ) :=
    (Nat.cast_add ..).symm
  unfold viewBin BinRef.ofNat
  dsimp only
  rw [raiseIf_bind hdtype, raiseIf_bind (by omega), raiseIf_bind hneg,
    raiseIf_bind (fun h => h.elim hitem fun h => h hmod), hprod,
    raiseIf_bind (not_not.mpr hexpected), raiseIf_bind (by omega), raiseIf_bind (by omega),
    hoffset, frombuffer_run hobject hitem (by omega)]

/-- A reference is sound, or a check that does not look at the buffer reports a format error. -/
theorem sound_or_rejected (dataBytes : ℕ) (ref : BinRef) :
    (∃ relOffset nbytes shape, ref = .ofNat relOffset nbytes ref.dtype shape ∧
      BinRef.Sound dataBytes ref.dtype relOffset nbytes shape) ∨
    ∃ message, message ≠ "ndarray reference exceeds the encoded array" ∧ ∀ binary dataStart,
      viewBin binary dataStart dataBytes ref = .error (.formatError message) := by
  unfold viewBin
  by_cases hdtype : (ref.dtype.hasobject || ref.dtype.hasfields) = true
  · exact .inr ⟨_, by decide, fun binary dataStart => raiseIf_bind_of hdtype⟩
  simp only [raiseIf_bind hdtype]
  by_cases hneg : ref.relOffset < 0 ∨ ref.nbytes < 0
  · exact .inr ⟨_, by decide, fun binary dataStart => raiseIf_bind_of hneg⟩
  simp only [raiseIf_bind hneg]
  by_cases hshape : ref.shape.any (· < 0) = true
  · exact .inr ⟨_, by decide, fun binary dataStart => raiseIf_bind_of hshape⟩
  simp only [raiseIf_bind hshape]
  by_cases hitem : ref.dtype.itemsize = 0 ∨ ref.nbytes % ref.dtype.itemsize ≠ 0
  · exact .inr ⟨_, by decide, fun binary dataStart => raiseIf_bind_of hitem⟩
  simp only [raiseIf_bind hitem]
  by_cases hbytes : ref.shape.prod * ref.dtype.itemsize ≠ ref.nbytes
  · exact .inr ⟨_, by decide, fun binary dataStart => raiseIf_bind_of hbytes⟩
  simp only [raiseIf_bind hbytes]
  by_cases hinside : (dataBytes : ℤ) < ref.relOffset + ref.nbytes
  · exact .inr ⟨_, by decide, fun binary dataStart => raiseIf_bind_of hinside⟩
  -- every check has passed, so the reference is sound
  left
  obtain ⟨dims, hdims⟩ := natCast_of_nonneg (show ∀ d ∈ ref.shape, 0 ≤ d by simpa using hshape)
  obtain ⟨relOffset, hoff⟩ := Int.eq_ofNat_of_zero_le (show 0 ≤ ref.relOffset by omega)
  obtain ⟨nbytes, hnb⟩ := Int.eq_ofNat_of_zero_le (show 0 ≤ ref.nbytes by omega)
  rw [hdims, prod_natCast, hnb, not_not] at hbytes
  rw [Bool.or_eq_true, not_or, Bool.not_eq_true, Bool.not_eq_true] at hdtype
  refine ⟨relOffset, nbytes, dims, ?_, ?_⟩
  · rw [BinRef.ofNat, ← hoff, ← hnb, ← hdims]
  · exact ⟨hdtype.1, hdtype.2, fun h0 => hitem (.inl h0), by exact_mod_cast hbytes, by omega⟩

end ViewBin

/-- Reshaping to lengths that are all known keeps the data and the number of elements. -/
theorem reshape_eq_ok {a b : NdArray} {shape : List ℕ} :
    reshape a (shape.map fun d : ℕ => (d : ℤ)) = .ok b ↔
      shape.prod = a.size ∧ ∃ h, b = .cArray a.data a.dtype shape h := by
  have hnonneg : ∀ d ∈ shape.map fun d : ℕ => (d : ℤ), 0 ≤ d := by
    intro d hd
    obtain ⟨n, -, rfl⟩ := List.mem_map.mp hd
    exact Int.natCast_nonneg n
  rw [reshape, resolveShape_nonneg _ _ hnonneg, map_toNat_natCast]
  by_cases hprod : shape.prod = a.size
  · rw [if_pos hprod]
    simp [hprod, mkArray_eq_ok]
  · rw [if_neg hprod]
    simp [hprod]

theorem shapeOk_flat {itemsize : ℕ} {shape : List ℕ} (h : ShapeOk itemsize shape)
    (hpos : 0 < itemsize) : ShapeOk itemsize [shape.prod] := by
  obtain ⟨-, -, hbytes⟩ := h
  by_cases h0 : shape.prod = 0
  · have hsmall : itemsize < 2 ^ 63 := by
      refine lt_of_le_of_lt (Nat.le_mul_of_pos_left itemsize ?_) hbytes
      exact Nat.pos_of_ne_zero (List.prod_ne_zero (by simp))
    rw [h0]
    exact ⟨by simp, by simp, by simpa using hsmall⟩
  · have hall : shape.filter (0 < ·) = shape := by
      refine List.filter_eq_self.mpr fun d hd => ?_
      have hd0 : d ≠ 0 := fun e => h0 (List.prod_eq_zero (e ▸ hd))
      simpa using Nat.pos_of_ne_zero hd0
    rw [hall] at hbytes
    have hprod : 0 < shape.prod := Nat.pos_of_ne_zero h0
    refine ⟨by simp, ?_, by simpa [hprod] using hbytes⟩
    intro d hd
    rw [List.mem_singleton] at hd
    subst hd
    exact lt_of_le_of_lt (Nat.le_mul_of_pos_right _ hpos) hbytes

/-- The array a decoder makes of an inline reference to `node`. -/
def decodedView (base : ℤ) (dataStart relOffset : ℕ) (node : NdArray) : NdArray :=
  .cArray (base + (dataStart + relOffset : ℕ)) node.dtype node.shape node.shape_ok

@[simp] theorem decodedView_isCContiguous (base : ℤ) (dataStart relOffset : ℕ) (node : NdArray) :
    (decodedView base dataStart relOffset node).isCContiguous = true :=
  NdArray.cArray_isCContiguous ..

theorem restoreBin_binFields {R : Runtime} {binary : Buffer} {dataStart dataBytes relOffset : ℕ}
    {node : NdArray} (hdtype : R.dtype (.leaf (.str node.dtype.str)) = .ok (.plain node.dtype))
    (hvalid : validateNdarray node = .ok ()) (hitem : 0 < node.dtype.itemsize)
    (hin : relOffset + node.nbytes ≤ dataBytes) (hroom : dataStart + dataBytes ≤ binary.size) :
    restoreBin R binary dataStart dataBytes (binFields relOffset node) =
      .ok (decodedView binary.base dataStart relOffset node) := by
  obtain ⟨hobject, hfields⟩ := validateNdarray_eq_ok.mp hvalid
  have hconvert : convertBin R (binFields relOffset node) =
      .ok ⟨relOffset, node.nbytes, .plain node.dtype, node.shape.map fun d : ℕ => (d : ℤ)⟩ := by
    have hshape := mapM_pyInt_natCast R.intOfStr node.shape
    simp only [convertBin, binFields, pyItem, List.lookup_cons]
    simp [hdtype, hshape, bind, Except.bind, pure, Except.pure]
  have hsound : BinRef.Sound dataBytes (.plain node.dtype) relOffset node.nbytes node.shape :=
    ⟨hobject, hfields, Nat.pos_iff_ne_zero.mp hitem, rfl, hin⟩
  have hflat : elementsAt (binary.base + (dataStart + relOffset : ℕ)) (.plain node.dtype)
      node.shape.prod = .ok _ := mkArray_eq_ok.mpr ⟨shapeOk_flat node.shape_ok hitem, rfl⟩
  rw [restoreBin, hconvert, catching_ok]
  refine (viewBin_of_sound hroom hsound).trans ?_
  rw [hflat]
  exact reshape_eq_ok.mpr ⟨(List.prod_singleton).symm, node.shape_ok, rfl⟩

end Npb
