import Npb.Codec.Containment
import Npb.Codec.RoundTrip

/-! # Relocation

A container that lies elsewhere, in the memory of another process, decodes to the same values: every
array keeps its offset from the start of the buffer (`decode_relocates`). -/

namespace Npb
set_option autoImplicit false
open Effects Numpy

variable {σ τ : Type}

/-! ## Moved arrays -/

/-- The array `d` bytes further on. -/
def NdArray.moved (d : ℤ) (a : NdArray) : NdArray := { a with data := a.data + d }

def Leaf.moved (d : ℤ) : Leaf → Leaf
  | .ndarray a => .ndarray (NdArray.moved d a)
  | l => l

/-- A memory that has the bytes of the array `d` bytes further on has the array there. -/
theorem content_moved {m m' : Mem} {d : ℤ} (a : NdArray)
    (h : ∀ x, a.Touches x → m' (x + d) = m x) :
    (NdArray.moved d a).content m' = a.content m := by
  have hbytes : (NdArray.moved d a).tobytes m' = a.tobytes m := by
    refine List.flatMap_congr fun o ho => ?_
    refine Mem.read_congr fun i hi => ?_
    have hitem : i < a.dtype.itemsize := hi
    have hx := h (a.data + o + i) ⟨o, ho, by omega, by omega⟩
    have he : (NdArray.moved d a).data + o + i = a.data + o + i + d := by
      show a.data + d + o + i = _
      ring
    rw [he, hx]
  rw [NdArray.content, NdArray.content, hbytes]
  rfl

section References
variable {R : Runtime} {b b' : Buffer} {dataStart dataBytes : ℕ} {d : ℤ}

theorem mkArray_moved (d data : ℤ) (dtype : DType) (shape : List ℕ) :
    mkArray (data + d) dtype shape = NdArray.moved d <$> mkArray data dtype shape := by
  unfold mkArray
  split <;> rfl

theorem elementsAt_moved (d data : ℤ) (dtype : NpDtype) (n : ℕ) :
    elementsAt (data + d) dtype n = NdArray.moved d <$> elementsAt data dtype n := by
  cases dtype with
  | plain dtype => exact mkArray_moved d data dtype [n]
  | subarray base shape => exact mkArray_moved d data base (n :: shape)

theorem reshape_moved (d : ℤ) (a : NdArray) (shape : List ℤ) :
    reshape (NdArray.moved d a) shape = NdArray.moved d <$> reshape a shape := by
  have hsize : (NdArray.moved d a).size = a.size := rfl
  unfold reshape
  rw [hsize]
  cases resolveShape a.size shape with
  | none => rfl
  | some dims => exact mkArray_moved d a.data a.dtype dims

/-- The view of a reference moves with the buffer. -/
theorem viewBin_moved (hbase : b'.base = b.base + d) (hroom : dataStart + dataBytes ≤ b.size)
    (hroom' : dataStart + dataBytes ≤ b'.size) (ref : BinRef) :
    viewBin b' dataStart dataBytes ref = NdArray.moved d <$> viewBin b dataStart dataBytes ref := by
  rcases sound_or_rejected dataBytes ref with
    ⟨relOffset, nbytes, shape, href, hsound⟩ | ⟨message, -, herror⟩
  · have haddress : b'.base + (dataStart + relOffset : ℕ) =
        b.base + (dataStart + relOffset : ℕ) + d := by
      rw [hbase]
      ring
    rw [href, viewBin_of_sound hroom hsound, viewBin_of_sound hroom' hsound, haddress,
      elementsAt_moved]
    cases elementsAt (b.base + (dataStart + relOffset : ℕ)) ref.dtype shape.prod with
    | error e => rfl
    | ok flat => exact reshape_moved d flat _
  · rw [herror, herror]
    rfl

theorem restoreBin_moved (hbase : b'.base = b.base + d) (hroom : dataStart + dataBytes ≤ b.size)
    (hroom' : dataStart + dataBytes ≤ b'.size) (ref : List (String × Json)) :
    restoreBin R b' dataStart dataBytes ref =
      NdArray.moved d <$> restoreBin R b dataStart dataBytes ref := by
  unfold restoreBin
  cases catching PyError.isLookupOrConversionError (.formatError "invalid ndarray reference")
    (convertBin R ref) with
  | error e => rfl
  | ok r => exact viewBin_moved hbase hroom hroom' r

theorem restoreOffline_moved (hbase : b'.base = b.base + d)
    (hroom : dataStart + dataBytes ≤ b.size) (hroom' : dataStart + dataBytes ≤ b'.size)
    (r : Reference) :
    restoreOffline R b' dataStart dataBytes r =
      Tree.map (Leaf.moved d) <$> restoreOffline R b dataStart dataBytes r := by
  cases r with
  | scalar s => rfl
  | bin ref =>
    rw [restoreOffline, restoreOffline, restoreBin_moved hbase hroom hroom']
    cases restoreBin R b dataStart dataBytes ref <;> rfl
  | blob value =>
    rw [restoreOffline, restoreOffline]
    cases catching PyError.isTypeOrValueError (.formatError "invalid external blob reference")
      (BlobRef.fromManifest R value) <;> rfl

/-- The items of a decoded mapping, every array `d` bytes further on. -/
def movedItems (d : ℤ) (kvs : List (String × Tree Leaf)) : List (String × Tree Leaf) :=
  kvs.map fun kv => (kv.1, kv.2.map (Leaf.moved d))

theorem dict_movedItems (d : ℤ) (kvs : List (String × Tree Leaf)) :
    Tree.dict (movedItems d kvs) = (Tree.dict kvs).map (Leaf.moved d) :=
  (Tree.map_dict _ kvs).symm

theorem topLevel_moved (d : ℤ) (t : Tree Leaf) :
    topLevel (t.map (Leaf.moved d)) = movedItems d <$> topLevel t := by
  cases t with
  | leaf l => rfl
  | list xs =>
    rw [Tree.map, Tree.subst_list]
    rfl
  | dict kvs =>
    rw [← dict_movedItems]
    rfl

/-- A metadata section means the same for a buffer that lies elsewhere. -/
theorem decodeOffline_moved {info : BinaryInfo} (hbase : b'.base = b.base + d)
    (hroom : info.dataStart + info.dataBytes ≤ b.size)
    (hroom' : info.dataStart + info.dataBytes ≤ b'.size) (metadataJson : List UInt8) :
    decodeOffline R b' info metadataJson =
      movedItems d <$> decodeOffline R b info metadataJson := by
  have hleaf : restoreOffline R b' info.dataStart info.dataBytes = fun r =>
      Tree.map (Leaf.moved d) <$> restoreOffline R b info.dataStart info.dataBytes r :=
    funext (restoreOffline_moved hbase hroom hroom')
  unfold decodeOffline
  cases parseMetadata R metadataJson with
  | error e => rfl
  | ok manifest =>
    have hmap : Tree.bindM (restoreOffline R b' info.dataStart info.dataBytes)
        (references manifest) = Tree.map (Leaf.moved d) <$>
          Tree.bindM (restoreOffline R b info.dataStart info.dataBytes) (references manifest) := by
      rw [hleaf]
      exact (Tree.map_bindM _ _ _).symm
    rw [except_ok_bind, except_ok_bind, hmap]
    cases Tree.bindM (restoreOffline R b info.dataStart info.dataBytes) (references manifest) with
    | error e => rfl
    | ok tree => exact topLevel_moved d tree

theorem containsUnresolvedBlobRef_moved (d : ℤ) (t : Tree Leaf) :
    containsUnresolvedBlobRef (t.map (Leaf.moved d)) = containsUnresolvedBlobRef t := by
  rw [Bool.eq_iff_iff, containsUnresolvedBlobRef_iff, containsUnresolvedBlobRef_iff,
    Tree.leaves_map]
  refine exists_congr fun ref => ?_
  rw [List.mem_map]
  constructor
  · rintro ⟨l, hl, hmoved⟩
    cases l with
    | blobRef ref' =>
      cases hmoved
      exact hl
    | scalar s => cases hmoved
    | ndarray a => cases hmoved
  · exact fun h => ⟨_, h, rfl⟩

end References

/-! ## Copies -/

/-- The buffer of one process has the bytes of that of another. -/
structure Copied (m : Mem) (b : Buffer) (m' : Mem) (b' : Buffer) : Prop where
  size : b'.size = b.size
  bytes : b'.bytes m' = b.bytes m

section Copies
variable {m m' : Mem} {b b' : Buffer} {info : BinaryInfo}

theorem Copied.byte (h : Copied m b m' b') {x : ℤ} (hx : b.Contains x) :
    m' (x + (b'.base - b.base)) = m x := by
  obtain ⟨hlo, hhi⟩ := hx
  obtain ⟨i, rfl⟩ : ∃ i : ℕ, x = b.base + i := ⟨(x - b.base).toNat, by omega⟩
  have hi : i < (m.read b.base b.size).length := by
    rw [Mem.read_length]
    omega
  have hi' : i < (m'.read b'.base b'.size).length := by
    rw [Mem.read_length, h.size]
    rwa [Mem.read_length] at hi
  have hbyte : (m'.read b'.base b'.size)[i] = (m.read b.base b.size)[i] :=
    List.getElem_of_eq h.bytes hi'
  rw [Mem.read_getElem, Mem.read_getElem] at hbyte
  rw [← hbyte]
  congr 1
  ring

theorem Copied.read (h : Copied m b m' b') {k n : ℕ} (hn : k + n ≤ b.size) :
    m'.read (b'.base + k) n = m.read (b.base + k) n := by
  refine Mem.read_congr fun i hi => ?_
  have hbyte := h.byte (x := b.base + k + i) ⟨by omega, by omega⟩
  rw [← hbyte]
  congr 1
  ring

theorem Copied.accepted (h : Copied m b m' b') (haccepted : Accepted m b info) :
    Accepted m' b' info := by
  obtain ⟨hfields, hversion, hframe, hone, htotal, haligned, hmeta, hstart, hdata⟩ := haccepted
  have h64 : headerSize ≤ frameSize := by decide
  have hheader : m'.read b'.base headerSize = m.read b.base headerSize := by
    have hread := h.read (k := 0) (n := headerSize) (by omega)
    simpa using hread
  exact ⟨hheader ▸ hfields, hversion, hframe, hone, h.size ▸ htotal, haligned, hmeta, hstart, hdata⟩

theorem Copied.parse (h : Copied m b m' b') : parseHeaderIn m' b' = parseHeaderIn m b := by
  by_cases hsmall : b.size < headerSize
  · have hsmall' : b'.size < headerSize := h.size ▸ hsmall
    rw [parseHeaderIn, parseHeaderIn, raiseIf, if_pos hsmall', raiseIf, if_pos hsmall]
    rfl
  · have hheader : m'.read b'.base headerSize = m.read b.base headerSize := by
      have hread := h.read (k := 0) (n := headerSize) (by omega)
      simpa using hread
    rw [parseHeaderIn, parseHeaderIn, h.size, hheader]

end Copies

/-! ## Decoding a copy -/

/-- Both raise the same exception, or both return trees that read the same. -/
inductive Alike (d : ℤ) (w : World σ) (v : World τ) :
    EStateM.Result PyError (World σ) (List (String × Tree Leaf)) →
      EStateM.Result PyError (World τ) (List (String × Tree Leaf)) → Prop
  | error (e : PyError) : Alike d w v (.error e w) (.error e v)
  | ok (kvs : List (String × Tree Leaf))
    (hsame : (Tree.dict (movedItems d kvs)).map (Leaf.observe v.mem) =
      (Tree.dict kvs).map (Leaf.observe w.mem)) :
    Alike d w v (.ok kvs w) (.ok (movedItems d kvs) v)

theorem Alike.check {α : Type} {d : ℤ} {w : World σ} {v : World τ} {x : Except PyError α}
    {f : α → Py σ (List (String × Tree Leaf))} {g : α → Py τ (List (String × Tree Leaf))}
    (h : ∀ a, x = .ok a → Alike d w v (f a w) (g a v)) :
    Alike d w v ((fromExcept x >>= f) w) ((fromExcept x >>= g) v) := by
  cases x with
  | error e => exact .error e
  | ok a => exact h a rfl

/-- Both sides make a check afterwards for which it does not matter where arrays lie. -/
theorem Alike.checked {d : ℤ} {w : World σ} {v : World τ}
    {x : Py σ (List (String × Tree Leaf))} {y : Py τ (List (String × Tree Leaf))}
    (h : Alike d w v (x w) (y v)) {f : List (String × Tree Leaf) → Except PyError Unit}
    (hf : ∀ kvs, f (movedItems d kvs) = f kvs) :
    Alike d w v ((x >>= fun kvs => fromExcept (f kvs) >>= fun _ => pure kvs) w)
      ((y >>= fun kvs => fromExcept (f kvs) >>= fun _ => pure kvs) v) := by
  rw [bind_run, bind_run]
  revert h
  generalize x w = r, y v = r'
  rintro (e | ⟨kvs, hsame⟩)
  · exact .error e
  · dsimp only
    rw [hf]
    exact .check fun _ _ => .ok kvs hsame

section Decoding
variable {R : Runtime} {b b' : Buffer} {w : World σ} {v : World τ} {info : BinaryInfo}

theorem Copied.observe (h : Copied w.mem b v.mem b') (haccepted : Accepted w.mem b info)
    {kvs : List (String × Tree Leaf)} {w' : World σ}
    (hdecode : decodeTree R b info none w = .ok kvs w') :
    (Tree.dict (movedItems (b'.base - b.base) kvs)).map (Leaf.observe v.mem) =
      (Tree.dict kvs).map (Leaf.observe w.mem) := by
  rw [dict_movedItems, Tree.map_map]
  refine Tree.map_congr _ fun l hl => ?_
  cases l with
  | scalar s => rfl
  | blobRef ref => rfl
  | ndarray a =>
    have hcontent : (NdArray.moved (b'.base - b.base) a).content v.mem = a.content w.mem := by
      refine content_moved a fun x hx => h.byte ?_
      obtain ⟨r, hnames⟩ | ⟨store, ref, w₁, w₂, hstore, -⟩ :=
        decodeTree_arrays haccepted hdecode (mem_arraysOf.mpr hl)
      · obtain ⟨hlo, hhi⟩ := hnames.inData x hx
        have hroom := haccepted.data_le.trans haccepted.total_le
        exact ⟨by omega, by omega⟩
      · cases hstore
    exact congrArg LeafValue.array hcontent

theorem Copied.decodeTree (h : Copied w.mem b v.mem b') (haccepted : Accepted w.mem b info) :
    Alike (b'.base - b.base) w v (decodeTree R b info none w) (decodeTree R b' info none v) := by
  have haccepted' := h.accepted haccepted
  have hroom := haccepted.data_le.trans haccepted.total_le
  have hroom' := haccepted'.data_le.trans haccepted'.total_le
  have hmeta : v.mem.read (b'.base + headerSize) info.metadataBytes =
      w.mem.read (b.base + headerSize) info.metadataBytes :=
    h.read (by have := haccepted.metadata_le; omega)
  have hbase : b'.base = b.base + (b'.base - b.base) := by ring
  have hdecode := decodeTree_offline (R := R) haccepted
  rw [decodeTree_offline haccepted', hmeta, decodeOffline_moved hbase hroom hroom']
  cases hresult : decodeOffline R b info (w.mem.read (b.base + headerSize) info.metadataBytes) with
  | error e =>
    rw [hdecode, hresult]
    exact .error e
  | ok kvs =>
    rw [hresult] at hdecode
    have hsame := h.observe haccepted hdecode
    rw [hdecode]
    exact .ok kvs hsame

theorem parseHeader_bind {α : Type} {writeable : Bool} (f : Buffer × BinaryInfo → Py σ α) :
    (parseHeader (.array b.toArray writeable) >>= f) w =
      (fromExcept (parseHeaderIn w.mem b) >>= fun info => f (b, info)) w := by
  rw [parseHeader, requireBinaryArray_toArray, fromExcept_ok_bind, bind_assoc,
    bind_ok (get_run w), bind_assoc]
  rfl

theorem Copied.decodeAuto (h : Copied w.mem b v.mem b') (writeable writeable' : Bool) :
    Alike (b'.base - b.base) w v (decodeAuto R (.array b.toArray writeable) none w)
      (decodeAuto R (.array b'.toArray writeable') none v) := by
  rw [Npb.decodeAuto, Npb.decodeAuto, parseHeader_bind, parseHeader_bind, h.parse]
  exact .check fun info hparse => h.decodeTree (parseHeaderIn_eq_ok.mp hparse)

/-- Two processes that have the same bytes decode the same, whatever these bytes are and wherever
they lie: both raise the same exception, or both get trees that read the same, with every array at
the same place of the buffer. -/
theorem decode_relocates (h : Copied w.mem b v.mem b') (writeable writeable' : Bool) :
    Alike (b'.base - b.base) w v (decodeAuto R (.array b.toArray writeable) none w)
        (decodeAuto R (.array b'.toArray writeable') none v) ∧
      ∀ cls, Alike (b'.base - b.base) w v
        (decodeChecked R cls (.array b.toArray writeable) none w)
        (decodeChecked R cls (.array b'.toArray writeable') none v) := by
  constructor
  · exact h.decodeAuto writeable writeable'
  · intro cls
    unfold decodeChecked
    refine .check fun identity _ => ?_
    obtain ⟨expectedId, expectedVersion⟩ := identity
    dsimp only
    rw [parseHeader_bind, parseHeader_bind, h.parse]
    refine .check fun info hparse => .check fun _ _ => .check fun _ _ => ?_
    refine (h.decodeTree (parseHeaderIn_eq_ok.mp hparse)).checked fun kvs => ?_
    rw [dict_movedItems, containsUnresolvedBlobRef_moved]

end Decoding

section Sample

/-- Where the sample container lies in another process. -/
def otherBuffer : Buffer := ⟨2 ^ 20, sampleBuffer.size, sampleBuffer.size_lt⟩

def otherWorld : World Unit where
  mem x := (sampleWorld oneArrayText 8 fun _ => 0).mem (x - 2 ^ 20)
  live x := decide (otherBuffer.Contains x)
  store := ()

theorem copied_otherBuffer : Copied (sampleWorld oneArrayText 8 fun _ => 0).mem sampleBuffer
    otherWorld.mem otherBuffer where
  size := rfl
  bytes := Mem.read_congr fun i _ => congrArg (sampleWorld oneArrayText 8 fun _ => 0).mem
    (show (2 : ℤ) ^ 20 + i - 2 ^ 20 = 0 + i by ring)

/-- A container of one array, at address 0 and at address 2^20. -/
theorem decode_relocates_oneArray :
    Alike (otherBuffer.base - sampleBuffer.base) (sampleWorld oneArrayText 8 fun _ => 0) otherWorld
        (decodeAuto oneArrayRuntime (.array sampleBuffer.toArray true) none
          (sampleWorld oneArrayText 8 fun _ => 0))
        (decodeAuto oneArrayRuntime (.array otherBuffer.toArray false) none otherWorld) ∧
      ∀ cls, Alike (otherBuffer.base - sampleBuffer.base)
        (sampleWorld oneArrayText 8 fun _ => 0) otherWorld
        (decodeChecked oneArrayRuntime cls (.array sampleBuffer.toArray true) none
          (sampleWorld oneArrayText 8 fun _ => 0))
        (decodeChecked oneArrayRuntime cls (.array otherBuffer.toArray false) none otherWorld) :=
  decode_relocates copied_otherBuffer true false

end Sample
end Npb
