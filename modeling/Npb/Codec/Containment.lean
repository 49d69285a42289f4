import Npb.Codec.Reading

/-! # Decoder containment

An accepted header and the checks on a reference confine every inline array to the DATA section of
the container, and what `decode_auto` returns depends only on the bytes of the container: it is the
same for a larger buffer the container is the start of. -/

namespace Npb
set_option autoImplicit false
open Effects Numpy

variable {σ : Type}

/-! ## Where an inline array lies -/

/-- The array is the window of the DATA section that the reference names. -/
structure BinRef.Names (binary : Buffer) (info : BinaryInfo) (ref : BinRef) (a : NdArray) :
    Prop where
  contiguous : a.isCContiguous = true
  data : a.data = binary.base + info.dataStart + ref.relOffset
  nbytes : (a.nbytes : ℤ) = ref.nbytes
  product : ref.nbytes = ref.shape.prod * ref.dtype.itemsize
  offset_nonneg : 0 ≤ ref.relOffset
  inside : ref.relOffset + ref.nbytes ≤ info.dataBytes

/-- The addresses of the DATA section. -/
def DataSection (binary : Buffer) (info : BinaryInfo) (x : ℤ) : Prop :=
  binary.base + info.dataStart ≤ x ∧ x < binary.base + info.dataStart + info.dataBytes

/-- The array lies in the DATA section of the container. -/
def InData (binary : Buffer) (info : BinaryInfo) (a : NdArray) : Prop :=
  ∀ x, a.Touches x → DataSection binary info x

theorem BinRef.Names.inData {binary : Buffer} {info : BinaryInfo} {ref : BinRef} {a : NdArray}
    (h : ref.Names binary info a) : InData binary info a := by
  intro x hx
  have hwindow := NdArray.touches_contiguous h.contiguous hx
  have hdata := h.data
  have hnbytes := h.nbytes
  have hoffset := h.offset_nonneg
  have hinside := h.inside
  unfold DataSection
  omega

theorem elementsAt_eq_ok {data : ℤ} {dtype : NpDtype} {n : ℕ} {a : NdArray}
    (h : elementsAt data dtype n = .ok a) : a.data = data ∧ a.nbytes = n * dtype.itemsize := by
  unfold elementsAt at h
  cases dtype with
  | plain d =>
    obtain ⟨hshape, rfl⟩ := mkArray_eq_ok.mp h
    refine ⟨rfl, ?_⟩
    rw [NdArray.nbytes, NdArray.size, NdArray.cArray, List.prod_singleton]
    rfl
  | subarray base shape =>
    obtain ⟨hshape, rfl⟩ := mkArray_eq_ok.mp h
    refine ⟨rfl, ?_⟩
    rw [NdArray.nbytes, NdArray.size, NdArray.cArray, List.prod_cons, Nat.mul_assoc]
    rfl

theorem viewBin_names {binary : Buffer} {info : BinaryInfo} {mem : Mem}
    (haccepted : Accepted mem binary info) {ref : BinRef} {a : NdArray}
    (h : viewBin binary info.dataStart info.dataBytes ref = .ok a) : ref.Names binary info a := by
  have hroom := haccepted.data_le.trans haccepted.total_le
  rcases sound_or_rejected info.dataBytes ref with
    ⟨relOffset, nbytes, shape, href, hsound⟩ | ⟨message, -, herror⟩
  · rw [href, viewBin_of_sound hroom hsound] at h
    obtain ⟨flat, hflat, h⟩ := except_bind_eq_ok.mp h
    obtain ⟨hdata, hbytes⟩ := elementsAt_eq_ok hflat
    obtain ⟨hprod, hshape, rfl⟩ := reshape_eq_ok.mp h
    have hnbytes : (NdArray.cArray flat.data flat.dtype shape hshape).nbytes = nbytes := by
      rw [← hsound.bytes, ← hbytes, NdArray.nbytes, NdArray.nbytes, ← hprod]
      rfl
    rw [href]
    refine ⟨NdArray.cArray_isCContiguous .., ?_, ?_, ?_, ?_, ?_⟩
    · rw [NdArray.cArray, hdata, BinRef.ofNat]
      push_cast
      ring
    · rw [hnbytes]
      rfl
    · rw [BinRef.ofNat, prod_natCast, ← hsound.bytes, Nat.cast_mul]
    · exact Int.natCast_nonneg relOffset
    · have hinside := hsound.inside
      change (relOffset : ℤ) + nbytes ≤ info.dataBytes
      omega
  · rw [herror] at h
    cases h

theorem restoreBin_names {R : Runtime} {binary : Buffer} {info : BinaryInfo} {mem : Mem}
    (haccepted : Accepted mem binary info) {ref : List (String × Json)} {a : NdArray}
    (h : restoreBin R binary info.dataStart info.dataBytes ref = .ok a) :
    ∃ r, convertBin R ref = .ok r ∧ r.Names binary info a := by
  obtain ⟨r, hconvert, h⟩ := except_bind_eq_ok.mp h
  exact ⟨r, catching_eq_ok.mp hconvert, viewBin_names haccepted h⟩

/-! ## The end of the buffer is never looked at -/

section Congr
variable {b b' : Buffer} {dataStart dataBytes : ℕ}

theorem viewBin_congr (hbase : b'.base = b.base) (hroom : dataStart + dataBytes ≤ b.size)
    (hroom' : dataStart + dataBytes ≤ b'.size) (ref : BinRef) :
    viewBin b' dataStart dataBytes ref = viewBin b dataStart dataBytes ref := by
  rcases sound_or_rejected dataBytes ref with
    ⟨relOffset, nbytes, shape, href, hsound⟩ | ⟨message, -, herror⟩
  · rw [href, viewBin_of_sound hroom hsound, viewBin_of_sound hroom' hsound, hbase]
  · rw [herror, herror]

theorem viewBin_not_exceeds (hroom : dataStart + dataBytes ≤ b.size) (ref : BinRef) :
    viewBin b dataStart dataBytes ref ≠
      .error (.formatError "ndarray reference exceeds the encoded array") := by
  rcases sound_or_rejected dataBytes ref with
    ⟨relOffset, nbytes, shape, href, hsound⟩ | ⟨message, hmessage, herror⟩
  · rw [href, viewBin_of_sound hroom hsound]
    intro h
    -- past the checks, only NumPy's own `ValueError` is left
    obtain h | ⟨flat, -, h⟩ := except_bind_eq_error.mp h
    · obtain ⟨_, h⟩ := elementsAt_error h
      cases h
    · obtain ⟨_, h⟩ := reshape_error h
      cases h
  · rw [herror]
    intro h
    exact hmessage (PyError.formatError.inj (Except.error.inj h))

theorem restoreBin_not_exceeds {R : Runtime} (hroom : dataStart + dataBytes ≤ b.size)
    (ref : List (String × Json)) :
    restoreBin R b dataStart dataBytes ref ≠
      .error (.formatError "ndarray reference exceeds the encoded array") := by
  intro h
  obtain h | ⟨r, -, h⟩ := except_bind_eq_error.mp h
  · obtain ⟨e, -, ⟨-, hraised⟩ | ⟨hcaught, rfl⟩⟩ := catching_error h
    · exact absurd (PyError.formatError.inj hraised) (by decide)
    · cases hcaught
  · exact viewBin_not_exceeds hroom r h

theorem restoreTree_congr {R : Runtime} (hbase : b'.base = b.base)
    (hroom : dataStart + dataBytes ≤ b.size) (hroom' : dataStart + dataBytes ≤ b'.size)
    (blobStore : Option (BlobStore σ)) (manifest : Json) :
    restoreTree R b' dataStart dataBytes blobStore manifest =
      restoreTree R b dataStart dataBytes blobStore manifest := by
  have href : restoreReference R b' dataStart dataBytes blobStore =
      restoreReference R b dataStart dataBytes blobStore := by
    funext r
    cases r with
    | scalar s => rfl
    | bin ref =>
      have hbin : restoreBin R b' dataStart dataBytes ref =
          restoreBin R b dataStart dataBytes ref := by
        unfold restoreBin
        congr 1
        funext r
        exact viewBin_congr hbase hroom hroom' r
      rw [restoreReference, restoreReference, hbin]
    | blob value => rfl
  rw [restoreTree_eq, restoreTree_eq, href]

end Congr

/-! ## The whole decoder -/

theorem metadata_read {mem : Mem} {binary : Buffer} {info : BinaryInfo}
    (h : Accepted mem binary info) :
    ((binary.bytes mem).drop headerSize).take info.metadataBytes =
      mem.read (binary.base + headerSize) info.metadataBytes := by
  have hmeta := h.metadata_le
  have hdata := h.data_le
  have htotal := h.total_le
  rw [Buffer.bytes, Mem.read_drop_take _ _ (by omega)]

theorem Accepted.take {mem : Mem} {binary : Buffer} {info : BinaryInfo}
    (h : Accepted mem binary info) : Accepted mem (binary.take info.totalBytes) info := by
  have htotal := h.total_le
  exact ⟨h.fields, h.version, h.frame, h.one_frame, Nat.le_min.mpr ⟨le_rfl, htotal⟩,
    h.total_aligned, h.metadata_le, h.start_aligned, h.data_le⟩

theorem decodeTree_take {R : Runtime} {binary : Buffer} {info : BinaryInfo} {w : World σ}
    (h : Accepted w.mem binary info) (blobStore : Option (BlobStore σ)) :
    decodeTree R (binary.take info.totalBytes) info blobStore w =
      decodeTree R binary info blobStore w := by
  have hroom := h.data_le.trans h.total_le
  have hroom' := h.take.data_le.trans h.take.total_le
  have htree := restoreTree_congr (R := R) (binary.take_base _) hroom hroom' blobStore
  have hmeta := (metadata_read h.take).trans (metadata_read h).symm
  unfold decodeTree
  rw [bind_ok (get_run w), bind_ok (get_run w), hmeta]
  simp only [htree]

/-- An array in a decoded tree is the window a reference names or came from the store. -/
theorem decodeTree_arrays {R : Runtime} {binary : Buffer} {info : BinaryInfo} {mem : Mem}
    (haccepted : Accepted mem binary info) {blobStore : Option (BlobStore σ)} {w w' : World σ}
    {kvs : List (String × Tree Leaf)} (h : decodeTree R binary info blobStore w = .ok kvs w')
    {a : NdArray} (ha : a ∈ arraysOf (.dict kvs)) :
    (∃ r : BinRef, r.Names binary info a) ∨ ∃ store ref v v', blobStore = some store ∧
      store.getArray ref v = .ok a v' := by
  rw [decodeTree, bind_ok (get_run w), bind_eq_ok] at h
  obtain ⟨manifest, w₁, -, h⟩ := h
  rw [bind_eq_ok] at h
  obtain ⟨tree, w₂, htree, htop₀⟩ := h
  obtain ⟨htop, rfl⟩ := fromExcept_eq_ok.mp htop₀
  have hdict := topLevel_eq_ok.mp htop
  rw [restoreTree_eq, hdict] at htree
  have hpost := Tree.bindM_post (I := fun _ => True)
    (Q := fun _ l => ∀ a, l = Leaf.ndarray a → (∃ r : BinRef, r.Names binary info a) ∨
      ∃ store ref v v', blobStore = some store ∧ store.getArray ref v = .ok a v') _
    (fun r _ v y v' _ hrun => by
      refine ⟨trivial, ?_, fun _ hq => hq⟩
      intro l hl a hla
      subst hla
      cases r with
      | scalar s =>
        cases hrun
        cases List.mem_singleton.mp hl
      | bin ref =>
        rw [restoreReference, bind_eq_ok] at hrun
        obtain ⟨b, v₁, hbin₀, hrun⟩ := hrun
        obtain ⟨hbin, -⟩ := fromExcept_eq_ok.mp hbin₀
        cases hrun
        cases List.mem_singleton.mp hl
        obtain ⟨r, -, hnames⟩ := restoreBin_names haccepted hbin
        exact .inl ⟨r, hnames⟩
      | blob value =>
        rw [restoreReference, bind_eq_ok] at hrun
        obtain ⟨l', v₁, hblob, hrun⟩ := hrun
        cases hrun
        cases List.mem_singleton.mp hl
        obtain ⟨ref, -, ⟨-, hl', -⟩ | ⟨store, b, hstore, -, hget, hl'⟩⟩ := restoreBlob_ok hblob
        · cases hl'
        · cases hl'
          exact .inr ⟨store, ref, v, _, hstore, hget⟩) trivial htree
  exact hpost.2.1 _ (mem_arraysOf.mp ha) a rfl

/-! ## Decoding without a store -/

/-- `_restore_tree` on one reference when there is no store. -/
def restoreOffline (R : Runtime) (binary : Buffer) (dataStart dataBytes : ℕ) :
    Reference → Except PyError (Tree Leaf)
  | .scalar s => .ok (.leaf (.scalar s))
  | .bin ref => do
    let a ← restoreBin R binary dataStart dataBytes ref
    return .leaf (.ndarray a)
  | .blob value => do
    let ref ← catching PyError.isTypeOrValueError (.formatError "invalid external blob reference")
      (BlobRef.fromManifest R value)
    return .leaf (.blobRef ref)

theorem restoreReference_offline (R : Runtime) (binary : Buffer) (dataStart dataBytes : ℕ) :
    restoreReference R binary dataStart dataBytes (none : Option (BlobStore σ)) =
      fun r => fromExcept (restoreOffline R binary dataStart dataBytes r) := by
  funext r
  cases r with
  | scalar s => rfl
  | bin ref =>
    rw [restoreReference, restoreOffline, ← fromExcept_bind]
    rfl
  | blob value =>
    rw [restoreReference, restoreOffline, ← fromExcept_bind, restoreBlob]
    simp only [bind_assoc, pure_bind]
    rfl

/-- What `_decode_tree` makes of a metadata section when there is no store. -/
def decodeOffline (R : Runtime) (binary : Buffer) (info : BinaryInfo) (metadataJson : List UInt8) :
    Except PyError (List (String × Tree Leaf)) := do
  let manifest ← parseMetadata R metadataJson
  let tree ← Tree.bindM (restoreOffline R binary info.dataStart info.dataBytes)
    (references manifest)
  topLevel tree

theorem decodeTree_offline {R : Runtime} {binary : Buffer} {info : BinaryInfo} {w : World σ}
    (h : Accepted w.mem binary info) :
    decodeTree R binary info none w =
      fromExcept (decodeOffline R binary info
        (w.mem.read (binary.base + headerSize) info.metadataBytes)) w := by
  unfold decodeTree decodeOffline
  rw [bind_ok (get_run w), metadata_read h]
  simp only [restoreTree_eq, restoreReference_offline, Tree.bindM_fromExcept, fromExcept_bind]

theorem Accepted.congr {mem mem' : Mem} {binary : Buffer} {info : BinaryInfo}
    (h : Accepted mem binary info)
    (hsame : ∀ x, binary.base ≤ x → x < binary.base + info.totalBytes → mem' x = mem x) :
    Accepted mem' binary info := by
  obtain ⟨hfields, hversion, hframe, hone, htotal, haligned, hmeta, hstart, hdata⟩ := h
  have hheader : mem'.read binary.base headerSize = mem.read binary.base headerSize := by
    refine Mem.read_congr fun i hi => hsame _ (by omega) ?_
    have h64 : headerSize ≤ frameSize := by decide
    omega
  exact ⟨hheader ▸ hfields, hversion, hframe, hone, htotal, haligned, hmeta, hstart, hdata⟩

theorem decodeAuto_accepted {R : Runtime} {arg : Argument} {binary : Buffer} {info : BinaryInfo}
    {w : World σ} (hrequire : requireBinaryArray arg = .ok binary)
    (h : Accepted w.mem binary info) (blobStore : Option (BlobStore σ)) :
    decodeAuto R arg blobStore w = decodeTree R binary info blobStore w := by
  rw [decodeAuto, bind_ok (parseHeader_eq_ok.mpr ⟨hrequire, h, rfl⟩)]

/-- The container confines the decoder. -/
structure Contained (R : Runtime) (arg : Argument) (binary : Buffer) (info : BinaryInfo)
    (w : World σ) : Prop where
  /-- The metadata slice of `_decode_tree` ends before the DATA section. -/
  metadata : ((binary.bytes w.mem).drop headerSize).take info.metadataBytes =
      w.mem.read (binary.base + headerSize) info.metadataBytes ∧
    headerSize + info.metadataBytes ≤ info.dataStart
  /-- The DATA section lies in the container, and the container in the buffer. -/
  sections : info.dataStart + info.dataBytes ≤ info.totalBytes ∧ info.totalBytes ≤ binary.size
  /-- An inline array is the window its reference names. -/
  inline : ∀ ref a, restoreBin R binary info.dataStart info.dataBytes ref = .ok a →
    ∃ r, convertBin R ref = .ok r ∧ r.Names binary info a
  never_exceeds : ∀ ref, restoreBin R binary info.dataStart info.dataBytes ref ≠
    .error (.formatError "ndarray reference exceeds the encoded array")
  /-- An array of a decoded tree lies in the DATA section unless a store returned it. -/
  arrays : ∀ blobStore kvs w₁, decodeAuto R arg blobStore w = .ok kvs w₁ →
    ∀ a ∈ arraysOf (.dict kvs), InData binary info a ∨
      ∃ store ref v v', blobStore = some store ∧ store.getArray ref v = .ok a v'
  /-- `decode_auto(b) = decode_auto(b[:n])`. -/
  trailing : ∀ (blobStore : Option (BlobStore σ)) (writeable : Bool), decodeAuto R arg blobStore w =
    decodeAuto R (.array (binary.take info.totalBytes).toArray writeable) blobStore w
  /-- Without a store, the result is a function of the container's bytes. -/
  offline : ∃ result : Except PyError (List (String × Tree Leaf)), ∀ v : World σ,
    (∀ x, binary.base ≤ x → x < binary.base + info.totalBytes → v.mem x = w.mem x) →
    decodeAuto R arg none v = fromExcept result v

theorem decode_contained {R : Runtime} {arg : Argument} {binary : Buffer} {info : BinaryInfo}
    {w w' : World σ} (haccept : parseHeader arg w = .ok (binary, info) w') :
    Contained R arg binary info w := by
  obtain ⟨hrequire, haccepted, -⟩ := parseHeader_eq_ok.mp haccept
  have hroom := haccepted.data_le.trans haccepted.total_le
  refine ⟨⟨metadata_read haccepted, haccepted.metadata_le⟩, ⟨haccepted.data_le,
    haccepted.total_le⟩, fun ref a => restoreBin_names haccepted, restoreBin_not_exceeds hroom,
    ?_, ?_, ?_⟩
  · intro blobStore kvs w₁ h a ha
    rw [decodeAuto_accepted hrequire haccepted] at h
    exact (decodeTree_arrays haccepted h ha).imp_left fun ⟨r, hr⟩ => hr.inData
  · intro blobStore writeable
    rw [decodeAuto_accepted hrequire haccepted,
      decodeAuto_accepted (requireBinaryArray_toArray _ writeable) haccepted.take,
      decodeTree_take haccepted]
  · refine ⟨decodeOffline R binary info
      (w.mem.read (binary.base + headerSize) info.metadataBytes), fun v hsame => ?_⟩
    have hmeta : v.mem.read (binary.base + headerSize) info.metadataBytes =
        w.mem.read (binary.base + headerSize) info.metadataBytes := by
      have hle := haccepted.metadata_le
      have hdata := haccepted.data_le
      exact Mem.read_congr fun i hi => hsame _ (by omega) (by omega)
    rw [decodeAuto_accepted hrequire (haccepted.congr hsame),
      decodeTree_offline (haccepted.congr hsame), hmeta]

section Sample

/-- A header for `n` bytes of metadata and `d` bytes of data. -/
def sampleInfo (n d : ℕ) : BinaryInfo where
  formatVersion := 1
  frameSize := 65536
  schemaId := ⟨Vector.replicate 16 7⟩
  schemaVersion := 1
  metadataBytes := n
  dataStart := 65536
  dataBytes := d
  totalBytes := 131072

def sampleHeader (n d : ℕ) : Option (List UInt8) :=
  Struct.pack headerFormat (magic, 1, 0, 65536, Vector.replicate 16 7, 1, n, 65536, d, 131072, ())

/-- A pool buffer larger than the container. -/
def sampleBuffer : Buffer := ⟨0, 200000, by decide⟩

/-- The buffer with a header and the metadata `text` over what `fill` holds. -/
def sampleWorld (text : String) (d : ℕ) (fill : Mem) : World Unit where
  mem := fill.write 0 ((sampleHeader (asciiBytes text).length d).getD [] ++ asciiBytes text)
  live x := decide (sampleBuffer.Contains x)
  store := ()

theorem sampleHeader_isSome {n d : ℕ} (hn : headerSize + n ≤ 65536) (hd : 65536 + d ≤ 131072) :
    ∃ header, sampleHeader n d = some header := by
  rw [← Option.isSome_iff_exists, sampleHeader, Struct.pack_isSome_iff]
  simp only [Struct.Fits, and_true]
  omega

theorem sample_accepted {text : String} {d : ℕ} (fill : Mem)
    (hlen : headerSize + (asciiBytes text).length ≤ 65536) (hd : 65536 + d ≤ 131072) :
    Accepted (sampleWorld text d fill).mem sampleBuffer (sampleInfo (asciiBytes text).length d) ∧
      (sampleWorld text d fill).mem.read (sampleBuffer.base + headerSize) (asciiBytes text).length =
        asciiBytes text := by
  obtain ⟨header, hheader⟩ := sampleHeader_isSome hlen hd
  have hsize : header.length = headerSize := Struct.pack_length hheader
  have hworld : (sampleWorld text d fill).mem = fill.write 0 (header ++ asciiBytes text) := by
    rw [sampleWorld, hheader]
    rfl
  have hread : (sampleWorld text d fill).mem.read sampleBuffer.base headerSize = header := by
    have h := Mem.read_write fill 0 (header ++ asciiBytes text)
      (show 0 + headerSize ≤ _ by rw [List.length_append]; omega)
    rw [List.drop_zero, List.take_left' hsize] at h
    rw [hworld]
    exact h
  have hframe : frameSize ≤ 131072 := by decide
  have htotal : 131072 ≤ sampleBuffer.size := by decide
  have haligned : 131072 % frameSize = 0 := by decide
  have hstart : 65536 % frameSize = 0 := by decide
  refine ⟨⟨?_, rfl, rfl, hframe, htotal, haligned, hlen, hstart, hd⟩, ?_⟩
  · rw [hread, ← List.append_nil header, Struct.unpack_pack hheader]
    rfl
  · have h := Mem.read_write fill 0 (header ++ asciiBytes text)
      (show headerSize + (asciiBytes text).length ≤ _ by rw [List.length_append]; omega)
    rw [List.drop_left' hsize, List.take_length] at h
    rw [hworld]
    exact h

theorem decodeAuto_sample {document : Json} {text : String} {d : ℕ} {free : ℤ} (fill : Mem)
    (hlen : headerSize + (asciiBytes text).length ≤ 65536) (hd : 65536 + d ≤ 131072)
    (writeable : Bool) :
    decodeAuto (.ofDocument document text free) (.array sampleBuffer.toArray writeable) none
        (sampleWorld text d fill) =
      fromExcept (Tree.bindM (restoreOffline (.ofDocument document text free) sampleBuffer 65536 d)
        (references document) >>= topLevel) (sampleWorld text d fill) := by
  obtain ⟨haccepted, hread⟩ := sample_accepted fill hlen hd
  rw [decodeAuto_accepted (requireBinaryArray_toArray sampleBuffer writeable) haccepted,
    decodeTree_offline haccepted, sampleInfo, hread]
  unfold decodeOffline parseMetadata
  rw [Runtime.fromJson_ofDocument]
  rfl

/-- A reference to eight bytes of the DATA section. -/
def sampleBin (offset : ℤ) : Json :=
  .dict [("$bin", .dict [("kind", .leaf (.str "ndarray")), ("offset", .leaf (.int offset)),
    ("nbytes", .leaf (.int 8)), ("dtype", .leaf (.str "<f8")), ("shape", .list [.leaf (.int 1)])])]

def sampleBlob : Json :=
  .dict [("$blob", .dict [("store", .leaf (.str "vineyard")), ("id", .leaf (.str "o")),
    ("offset", .leaf (.int 0)), ("nbytes", .leaf (.int 8)), ("dtype", .leaf (.str "<f8")),
    ("shape", .list [.leaf (.int 1)])])]

def sampleBinText (offset : String) : String :=
  "\x7b\"$bin\":\x7b\"kind\":\"ndarray\",\"offset\":" ++ offset ++
    ",\"nbytes\":8,\"dtype\":\"<f8\",\"shape\":[1]\x7d\x7d"

def sampleBlobText : String :=
  "\x7b\"$blob\":\x7b\"store\":\"vineyard\",\"id\":\"o\",\"offset\":0,\"nbytes\":8," ++
    "\"dtype\":\"<f8\",\"shape\":[1]\x7d\x7d"

/-- An array, and a reference to an object of a store. -/
def mixedDocument : Json := .dict [("x", sampleBin 0), ("y", sampleBlob)]

def mixedText : String := "\x7b\"x\":" ++ sampleBinText "0" ++ ",\"y\":" ++ sampleBlobText ++ "\x7d"

def mixedRuntime : Runtime := .ofDocument mixedDocument mixedText 4096

/-- The container decodes to the array at the start of its DATA section, and the reference. -/
theorem decode_contained_mixed :
    Contained mixedRuntime (.array sampleBuffer.toArray false) sampleBuffer
      (sampleInfo (asciiBytes mixedText).length 8) (sampleWorld mixedText 8 fun _ => 255) ∧
    decodeAuto mixedRuntime (.array sampleBuffer.toArray false) none
        (sampleWorld mixedText 8 fun _ => 255) =
      .ok [("x", .leaf (.ndarray (.cArray 65536 float64 [1] (by decide)))),
          ("y", .leaf (.blobRef ⟨"vineyard", "o", 0, 8, "<f8", [1]⟩))]
        (sampleWorld mixedText 8 fun _ => 255) := by
  have hlen : headerSize + (asciiBytes mixedText).length ≤ 65536 := by decide +kernel
  refine ⟨decode_contained (parseHeader_run
    (sample_accepted (fun _ => 255) hlen (by decide)).1 false), ?_⟩
  rw [mixedRuntime, decodeAuto_sample _ hlen (by decide)]
  rfl

end Sample
end Npb
