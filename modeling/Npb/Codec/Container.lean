import Npb.Codec.Layout

/-! # The bytes of a container

`containerBytes` is the byte string a container should be: header, metadata, frame padding, every
array at its offset with zeroed gaps, tail padding. `encode` writes exactly this string over the
start of its output buffer and nothing else (`encode_run`), provided every source array still has
its bytes when the loop reaches it (`SourcesSurvive`). -/

namespace Npb
set_option autoImplicit false
open Effects Numpy

variable {σ : Type}

/-- The DATA section from cursor `prev` on, with the arrays' bytes taken from `m`. -/
def body (m : Mem) : ℕ → List (ℕ × NdArray) → List UInt8
  | _, [] => []
  | prev, (relOffset, a) :: arrays =>
    List.replicate (relOffset - prev) 0 ++ a.tobytes m ++ body m (relOffset + a.nbytes) arrays

/-- Header, metadata and the padding up to the DATA section. -/
def frame (a : Analysis) (header : List UInt8) : List UInt8 :=
  header ++ a.metadataJson ++
    List.replicate (a.dataStart - (headerSize + a.metadataJson.length)) 0

def containerBytes (a : Analysis) (header : List UInt8) (m : Mem) : List UInt8 :=
  frame a header ++ body m 0 a.arrays ++
    List.replicate (a.totalSize - (a.dataStart + a.dataBytes)) 0

/-- While `pre` and then the arrays are written from `base` on, the bytes of each array are still
the ones of `m` when its turn comes: whatever of them has been overwritten, has been overwritten
with itself. -/
def SourcesSurvive (m : Mem) (base : ℤ) : List UInt8 → ℕ → List (ℕ × NdArray) → Prop
  | _, _, [] => True
  | pre, prev, (relOffset, a) :: arrays =>
    let filled := pre ++ List.replicate (relOffset - prev) 0
    (∀ x, a.Touches x → m.write base filled x = m x) ∧
      SourcesSurvive m base (filled ++ a.tobytes m) (relOffset + a.nbytes) arrays

/-! ## Lengths -/

theorem body_length (m : Mem) {c e : ℕ} {arrays : List (ℕ × NdArray)} (h : Laid c arrays e) :
    (body m c arrays).length + c = e := by
  induction arrays generalizing c with
  | nil =>
    have he : e = c := h
    simp [body, he]
  | cons x arrays ih =>
    obtain ⟨relOffset, a⟩ := x
    have hc := h.start_le
    obtain ⟨-, hrest⟩ := h
    have hlen := ih hrest
    simp only [body, List.length_append, List.length_replicate, NdArray.tobytes_length]
    omega

theorem frame_length {a : Analysis} {header : List UInt8} (hh : header.length = headerSize)
    (hs : headerSize + a.metadataJson.length ≤ a.dataStart) :
    (frame a header).length = a.dataStart := by
  simp only [frame, List.length_append, List.length_replicate]
  omega

theorem Analysis.frame_le {a : Analysis}
    (h : a.dataStart = alignUp (headerSize + a.metadataJson.length) frameSize) :
    headerSize + a.metadataJson.length ≤ a.dataStart := by
  rw [h]
  exact le_alignUp _ (by decide)

theorem le_totalSize (a : Analysis) : a.dataStart + a.dataBytes ≤ a.totalSize :=
  (le_max_left _ _).trans (le_alignUp _ (by decide))

theorem frameSize_le_totalSize (a : Analysis) : frameSize ≤ a.totalSize :=
  (le_max_right _ _).trans (le_alignUp _ (by decide))

theorem containerBytes_length {a : Analysis} {header : List UInt8} {m : Mem}
    (hh : header.length = headerSize)
    (hs : headerSize + a.metadataJson.length ≤ a.dataStart) (hl : Laid 0 a.arrays a.dataBytes) :
    (containerBytes a header m).length = a.totalSize := by
  have hb := body_length m hl
  have ht := le_totalSize a
  simp only [containerBytes, List.length_append, frame_length hh hs, List.length_replicate]
  omega

theorem body_slice (m : Mem) {c e : ℕ} {arrays : List (ℕ × NdArray)} (h : Laid c arrays e)
    {relOffset : ℕ} {a : NdArray} (ha : (relOffset, a) ∈ arrays) :
    ((body m c arrays).drop (relOffset - c)).take a.nbytes = a.tobytes m := by
  induction arrays generalizing c with
  | nil => cases ha
  | cons x arrays ih =>
    obtain ⟨relOffset', a'⟩ := x
    have hc := h.start_le
    obtain ⟨-, hrest⟩ := h
    obtain heq | hmem := List.mem_cons.mp ha
    · cases heq
      rw [body, List.append_assoc, List.drop_left' (List.length_replicate ..),
        List.take_left' (NdArray.tobytes_length ..)]
    · have hb := (hrest.mem_bounds hmem).1
      have hpre : (List.replicate (relOffset' - c) (0 : UInt8) ++ a'.tobytes m).length ≤
          relOffset - c := by
        simp only [List.length_append, List.length_replicate, NdArray.tobytes_length]
        omega
      have hsub : relOffset - c - (List.replicate (relOffset' - c) (0 : UInt8) ++
          a'.tobytes m).length = relOffset - (relOffset' + a'.nbytes) := by
        simp only [List.length_append, List.length_replicate, NdArray.tobytes_length]
        omega
      rw [body, List.drop_append, List.drop_eq_nil_of_le hpre, List.nil_append, hsub]
      exact ih hrest hmem

/-! ## The write loop -/

theorem survives_prefix {m : Mem} {base x : ℤ} {pre rest : List UInt8}
    (h : m.write base (pre ++ rest) x = m x) : m.write base pre x = m x := by
  by_cases hx : x < base + pre.length
  · rw [← Mem.write_append_of_lt m base pre rest hx, h]
  · exact Mem.write_of_not_mem m base pre (.inr (by omega))

theorem zeroGap_run {binary : Buffer} {lo hi : ℕ} {m₀ : Mem} {pre : List UInt8} {w : World σ}
    (hw : w.mem = m₀.write binary.base pre) (hpre : pre.length = lo) (hhi : hi ≤ binary.size) :
    zeroGap binary lo hi w = .ok () { w with
      mem := m₀.write binary.base (pre ++ List.replicate (hi - lo) 0) } := by
  unfold zeroGap
  split
  · rw [zeroSlice_run _ _ _ hhi, hw, Mem.write_write _ _ _ _ _ (by rw [hpre])]
  · next h =>
    have e : hi - lo = 0 := by omega
    rw [e, List.replicate_zero, List.append_nil, ← hw, pure_run]

/-- One iteration: the gap before the array and then what is read of the array go behind `pre`. -/
theorem writeArrays_cons {m₀ : Mem} {binary : Buffer} {dataStart prev relOffset : ℕ} {a : NdArray}
    {arrays : List (ℕ × NdArray)} {pre bytes : List UInt8} {w : World σ}
    (hw : w.mem = m₀.write binary.base pre) (hpre : pre.length = dataStart + prev)
    (hprev : prev ≤ relOffset) (hroom : dataStart + relOffset + a.nbytes ≤ binary.size)
    (hbytes : bytes.length = a.nbytes)
    (hread : ∃ arr : Contiguous, ascontiguousarray a w = .ok arr w ∧ arr.tobytes
      (m₀.write binary.base (pre ++ List.replicate (relOffset - prev) 0)) = bytes) :
    writeArrays binary dataStart ((relOffset, a) :: arrays) prev w =
      writeArrays binary dataStart arrays (relOffset + a.nbytes) { w with
        mem := m₀.write binary.base (pre ++ List.replicate (relOffset - prev) 0 ++ bytes) } := by
  have hsub : dataStart + relOffset - (dataStart + prev) = relOffset - prev := by omega
  have hgap := zeroGap_run hw hpre (show dataStart + relOffset ≤ binary.size by omega)
  rw [hsub] at hgap
  set filled := pre ++ List.replicate (relOffset - prev) (0 : UInt8) with hfilled
  have hlen : filled.length = dataStart + relOffset := by
    rw [hfilled, List.length_append, List.length_replicate]
    omega
  obtain ⟨arr, hrun, harr⟩ := hread
  have hassign : assignSlice binary (dataStart + relOffset)
      (arr.tobytes (m₀.write binary.base filled))
      { w with mem := m₀.write binary.base filled } =
      .ok () { w with mem := m₀.write binary.base (filled ++ bytes) } := by
    rw [harr, assignSlice_run _ _ _ (by rw [hbytes]; exact hroom),
      Mem.write_write _ _ _ _ _ (by rw [hlen])]
  rw [writeArrays, bind_ok hrun, bind_ok hgap, bind_ok (get_run _), bind_ok hassign]

/-- A source that must be copied is read before the gap is zeroed, any other one after it. -/
theorem ascontiguousarray_surviving {m₀ : Mem} {base : ℤ} {pre gap : List UInt8} {a : NdArray}
    {w : World σ} (hw : w.mem = m₀.write base pre)
    (hsurvive : ∀ x, a.Touches x → m₀.write base (pre ++ gap) x = m₀ x) :
    ∃ arr : Contiguous, ascontiguousarray a w = .ok arr w ∧
      arr.tobytes (m₀.write base (pre ++ gap)) = a.tobytes m₀ := by
  unfold ascontiguousarray
  rw [bind_ok (get_run w), pure_run]
  split
  · exact ⟨_, rfl, a.tobytes_congr hsurvive⟩
  · refine ⟨_, rfl, ?_⟩
    rw [hw]
    exact a.tobytes_congr fun x hx => survives_prefix (hsurvive x hx)

theorem ascontiguousarray_length (a : NdArray) (w : World σ) (m : Mem) :
    ∃ bytes : List UInt8, bytes.length = a.nbytes ∧
      ∃ arr : Contiguous, ascontiguousarray a w = .ok arr w ∧ arr.tobytes m = bytes := by
  unfold ascontiguousarray
  rw [bind_ok (get_run w), pure_run]
  refine ⟨_, ?_, _, rfl, rfl⟩
  split <;> exact NdArray.tobytes_length ..

theorem writeArrays_run {m₀ : Mem} {binary : Buffer} {dataStart : ℕ}
    {arrays : List (ℕ × NdArray)} {prev e : ℕ} (hl : Laid prev arrays e)
    (hroom : dataStart + e ≤ binary.size) {pre : List UInt8}
    (hpre : pre.length = dataStart + prev)
    (hsurvive : SourcesSurvive m₀ binary.base pre prev arrays) {w : World σ}
    (hw : w.mem = m₀.write binary.base pre) :
    writeArrays binary dataStart arrays prev w =
      .ok () { w with mem := m₀.write binary.base (pre ++ body m₀ prev arrays) } := by
  induction arrays generalizing prev pre w with
  | nil =>
    rw [writeArrays, pure_run, body, List.append_nil, ← hw]
  | cons x arrays ih =>
    obtain ⟨relOffset, a⟩ := x
    have hprev := hl.start_le
    obtain ⟨-, hrest⟩ := hl
    obtain ⟨hhere, hlater⟩ := hsurvive
    have hle := hrest.le
    rw [writeArrays_cons hw hpre hprev (by omega) (NdArray.tobytes_length ..)
      (ascontiguousarray_surviving hw hhere)]
    have hlen : (pre ++ List.replicate (relOffset - prev) 0 ++ a.tobytes m₀).length =
        dataStart + (relOffset + a.nbytes) := by
      simp only [List.length_append, List.length_replicate, NdArray.tobytes_length]
      omega
    rw [ih hrest hlen hlater rfl, body]
    simp only [List.append_assoc]

/-- Whatever the arrays hold when their turn comes, the loop fills the section behind `pre`. -/
theorem writeArrays_written {m₀ : Mem} {binary : Buffer} {dataStart : ℕ}
    {arrays : List (ℕ × NdArray)} {prev e : ℕ} (hl : Laid prev arrays e)
    (hroom : dataStart + e ≤ binary.size) {pre : List UInt8}
    (hpre : pre.length = dataStart + prev) {w : World σ}
    (hw : w.mem = m₀.write binary.base pre) :
    ∃ rest, (pre ++ rest).length = dataStart + e ∧
      writeArrays binary dataStart arrays prev w =
        .ok () { w with mem := m₀.write binary.base (pre ++ rest) } := by
  induction arrays generalizing prev pre w with
  | nil =>
    have he : e = prev := hl
    refine ⟨[], by rw [List.append_nil, hpre, he], ?_⟩
    rw [writeArrays, pure_run, List.append_nil, ← hw]
  | cons x arrays ih =>
    obtain ⟨relOffset, a⟩ := x
    have hprev := hl.start_le
    obtain ⟨-, hrest⟩ := hl
    have hle := hrest.le
    obtain ⟨bytes, hbytes, hread⟩ := ascontiguousarray_length a w
      (m₀.write binary.base (pre ++ List.replicate (relOffset - prev) 0))
    have hlen : (pre ++ List.replicate (relOffset - prev) 0 ++ bytes).length =
        dataStart + (relOffset + a.nbytes) := by
      rw [List.length_append, List.length_append, List.length_replicate, hbytes]
      omega
    rw [writeArrays_cons hw hpre hprev (by omega) hbytes hread]
    obtain ⟨rest, hrestlen, hloop⟩ := ih hrest hlen (w := ⟨m₀.write binary.base
      (pre ++ List.replicate (relOffset - prev) 0 ++ bytes), w.live, w.store⟩) rfl
    rw [hloop]
    simp only [List.append_assoc] at hrestlen ⊢
    exact ⟨_, hrestlen, rfl⟩

theorem sourcesSurvive_of_disjoint {m : Mem} {base : ℤ} {arrays : List (ℕ × NdArray)}
    {prev e n : ℕ} (hl : Laid prev arrays e) {pre : List UInt8}
    (hpre : pre.length + e ≤ n + prev)
    (hdisjoint : ∀ relOffset a, (relOffset, a) ∈ arrays →
      ∀ x, a.Touches x → x < base ∨ base + n ≤ x) :
    SourcesSurvive m base pre prev arrays := by
  induction arrays generalizing prev pre with
  | nil => trivial
  | cons x arrays ih =>
    obtain ⟨relOffset, a⟩ := x
    have hprev := hl.start_le
    obtain ⟨-, hrest⟩ := hl
    have hle := hrest.le
    constructor
    · intro x hx
      apply Mem.write_of_not_mem
      have hout := hdisjoint relOffset a (List.mem_cons_self ..) x hx
      simp only [List.length_append, List.length_replicate]
      omega
    · apply ih hrest
      · simp only [List.length_append, List.length_replicate, NdArray.tobytes_length]
        omega
      · intro relOffset' a' ha'
        exact hdisjoint relOffset' a' (List.mem_cons_of_mem _ ha')

/-! ## The header -/

theorem packHeader_length {a : Analysis} {header : List UInt8} (h : packHeader a = .ok header) :
    header.length = headerSize := by
  unfold packHeader at h
  split at h
  · next hpack =>
    cases h
    exact Struct.pack_length hpack
  · cases h

/-- The header can be packed when its numbers fit their fields. -/
def Analysis.HeaderFits (a : Analysis) : Prop :=
  a.schemaVersion < 2 ^ 32 ∧ a.metadataJson.length < 2 ^ 32 ∧ a.totalSize < 2 ^ 64

theorem packHeader_isOk_iff (a : Analysis) :
    (∃ header, packHeader a = .ok header) ↔ a.HeaderFits := by
  have hle := le_totalSize a
  have hpack : (∃ header, packHeader a = .ok header) ↔
      (Struct.pack headerFormat (headerValues a)).isSome := by
    unfold packHeader
    cases Struct.pack headerFormat (headerValues a) <;> simp
  rw [hpack, Struct.pack_isSome_iff, Analysis.HeaderFits]
  simp only [Struct.Fits, headerValues, formatVersion, frameSize, and_true]
  omega

/-! ## The output buffer -/

theorem checkOutput_eq_ok {n : ℕ} {out : Argument} {binary : Buffer}
    (h : checkOutput n out = .ok binary) :
    binary.size = n ∧ ∃ a, out = .array a true ∧ a.isCContiguous = true ∧
      binary.base = a.data ∧ n ≤ a.nbytes := by
  unfold checkOutput at h
  obtain ⟨⟨whole, writeable⟩, hrequire, h⟩ := except_bind_eq_ok.mp h
  rw [raiseIf_bind_eq_ok] at h
  obtain ⟨hwriteable, h⟩ := h
  rw [raiseIf_bind_eq_ok] at h
  obtain ⟨hroom, h⟩ := h
  cases h
  dsimp only at hwriteable hroom
  rw [Bool.not_eq_false] at hwriteable
  subst hwriteable
  obtain ⟨a, rfl, hc, hbase, hsize⟩ := requireByteArray_eq_ok hrequire
  refine ⟨Nat.min_eq_left (show n ≤ whole.size by omega), a, rfl, hc, hbase, by omega⟩

theorem acquireOutput_ok {R : Runtime} {n : ℕ} {out : Option Argument} {binary : Buffer}
    {w w' : World σ} (h : acquireOutput R n out w = .ok binary w') :
    binary.size = n ∧ w'.mem = w.mem ∧ w'.store = w.store ∧ w.Extends w' := by
  cases out with
  | some out =>
    obtain ⟨hcheck, rfl⟩ := fromExcept_eq_ok.mp h
    exact ⟨(checkOutput_eq_ok hcheck).1, rfl, rfl, .refl w'⟩
  | none =>
    obtain ⟨p, hn, -, rfl, rfl⟩ := empty_eq_ok.mp h
    exact ⟨rfl, rfl, rfl, fun x hx => ⟨by simp [hx], rfl⟩⟩

/-- `_prepare_output` provides `n` bytes that share no memory with the arrays. -/
def ProvidesOutput (R : Runtime) (out : Option Argument) (n : ℕ) (arrays : List NdArray)
    (w : World σ) : Prop :=
  ∃ binary w', acquireOutput R n out w = .ok binary w' ∧
    ∀ node ∈ arrays, ∀ x, node.Touches x → ¬ binary.Contains x

/-- Fresh memory for `n` bytes: `np.empty` succeeds and no live object lies there. -/
def Runtime.Allocates (R : Runtime) (live : ℤ → Bool) (n : ℕ) : Prop :=
  n < 2 ^ 63 ∧ ∃ p, R.alloc live n = some p ∧ ∀ x, p ≤ x → x < p + n → live x = false

theorem providesOutput_none {R : Runtime} {n : ℕ} {arrays : List NdArray} {w : World σ}
    (h : R.Allocates w.live n) (hlive : ∀ node ∈ arrays, ∀ x, node.Touches x → w.live x = true) :
    ProvidesOutput R none n arrays w := by
  obtain ⟨hn, p, hp, hfresh⟩ := h
  refine ⟨⟨p, n, hn⟩, _, empty_eq_ok.mpr ⟨p, hn, hp, rfl, rfl⟩, ?_⟩
  intro node hnode x hx hin
  have hfree := hfresh x hin.1 hin.2
  rw [hlive node hnode x hx] at hfree
  cases hfree

theorem sourcesSurvive_of_output {a : Analysis} {header : List UInt8}
    {binary : Buffer} {m : Mem} (hhead : packHeader a = .ok header)
    (hl : Laid 0 a.arrays a.dataBytes)
    (hstart : a.dataStart = alignUp (headerSize + a.metadataJson.length) frameSize)
    (hsize : binary.size = a.totalSize)
    (hdisjoint : ∀ relOffset node, (relOffset, node) ∈ a.arrays →
      ∀ x, node.Touches x → ¬ binary.Contains x) :
    SourcesSurvive m binary.base (frame a header) 0 a.arrays := by
  have htotal := le_totalSize a
  have hflen := frame_length (packHeader_length hhead) (Analysis.frame_le hstart)
  refine sourcesSurvive_of_disjoint (n := binary.size) hl (by omega) ?_
  intro relOffset node hmem x hx
  have hout := hdisjoint relOffset node hmem x hx
  unfold Buffer.Contains at hout
  omega

/-! ## The whole encoder -/

theorem analyzeModel_laid {R : Runtime} {model : Model} {blobStore : Option (BlobStore σ)}
    {externalizeMinBytes : Option ℤ} {w w' : World σ} {a : Analysis}
    (h : analyzeModel R model blobStore externalizeMinBytes w = .ok a w') :
    Laid 0 a.arrays a.dataBytes ∧
      a.dataStart = alignUp (headerSize + a.metadataJson.length) frameSize := by
  obtain ⟨schemaId, schemaVersion, pt, s, metadataJson, -, -, hplace, -, rfl, -⟩ :=
    analyzeModel_ok.mp h
  exact ⟨(placeTree_laidOut hplace).1.laid, rfl⟩

theorem prepareOutput_run {R : Runtime} {out : Option Argument} {n dataStart : ℕ}
    {binary : Buffer} {w w' : World σ} (h : acquireOutput R n out w = .ok binary w')
    (hle : dataStart ≤ n) :
    prepareOutput R out n dataStart w = .ok binary { w' with
      mem := w'.mem.write binary.base (List.replicate dataStart 0) } := by
  have hsize := (acquireOutput_ok h).1
  have hzero := zeroSlice_run binary 0 dataStart (by omega) w'
  simp only [Nat.cast_zero, add_zero, Nat.sub_zero] at hzero
  rw [prepareOutput, bind_ok h, bind_ok hzero, pure_run]

theorem packInto_run {binary : Buffer} {a : Analysis} {header : List UInt8}
    (hhead : packHeader a = .ok header) (hsize : headerSize ≤ binary.size) (w : World σ) :
    packInto binary a w = .ok () { w with mem := w.mem.write binary.base header } := by
  have hpacked : Struct.packed headerFormat (headerValues a) = header := by
    unfold packHeader at hhead
    split at hhead
    · next hpack =>
      cases hhead
      exact Struct.packed_of_pack hpack
    · cases hhead
  have hlen := packHeader_length hhead
  have hheader := assignSlice_run binary 0 header (by omega) w
  simp only [Nat.cast_zero, add_zero] at hheader
  rw [packInto, hpacked, bind_ok hheader, bind_ok (fromExcept_eq_ok.mpr ⟨hhead, rfl⟩), pure_run]

theorem packInto_ok {binary : Buffer} {a : Analysis} {w w' : World σ}
    (h : packInto binary a w = .ok () w') : ∃ header, packHeader a = .ok header := by
  rw [packInto, bind_eq_ok] at h
  obtain ⟨u, w₁, -, h⟩ := h
  rw [bind_eq_ok] at h
  obtain ⟨header, w₂, hhead, -⟩ := h
  exact ⟨header, (fromExcept_eq_ok.mp hhead).1⟩

/-- Header and metadata over the zeroed frame. -/
theorem write_frame {a : Analysis} {header : List UInt8} (hh : header.length = headerSize)
    (hs : headerSize + a.metadataJson.length ≤ a.dataStart) (m : Mem) (base : ℤ) :
    ((m.write base (List.replicate a.dataStart 0)).write base header).write (base + headerSize)
      a.metadataJson = m.write base (frame a header) := by
  have hdrop : (List.replicate a.dataStart (0 : UInt8)).drop header.length =
      List.replicate (a.dataStart - headerSize) 0 := by
    rw [List.drop_replicate, hh]
  rw [Mem.write_overlay _ _ _ _ (by rw [List.length_replicate]; omega), hdrop,
    ← Mem.write_write m base (base + headerSize) _ _ (by rw [hh]),
    Mem.write_overlay _ _ _ _ (by rw [List.length_replicate]; omega), List.drop_replicate,
    Mem.write_write _ _ _ _ _ (by rw [hh]), frame, Nat.sub_sub, List.append_assoc]

/-- `encode` writes what the loop over the arrays leaves behind the frame, and the tail padding. -/
theorem encode_run_of {R : Runtime} {model : Model} {out : Option Argument}
    {blobStore : Option (BlobStore σ)} {externalizeMinBytes : Option ℤ} {w w₁ w₂ : World σ}
    {a : Analysis} {header written : List UInt8} {binary : Buffer}
    (ha : analyzeModel R model blobStore externalizeMinBytes w = .ok a w₁)
    (hhead : packHeader a = .ok header)
    (hout : acquireOutput R a.totalSize out w₁ = .ok binary w₂)
    (hwritten : written.length = a.dataStart + a.dataBytes)
    (harrays : writeArrays binary a.dataStart a.arrays 0
        { w₂ with mem := w₂.mem.write binary.base (frame a header) } =
      .ok () { w₂ with mem := w₂.mem.write binary.base written }) :
    encode R model out blobStore externalizeMinBytes w = .ok binary { w₂ with
      mem := w₂.mem.write binary.base
        (written ++ List.replicate (a.totalSize - (a.dataStart + a.dataBytes)) 0) } := by
  obtain ⟨hl, hstart⟩ := analyzeModel_laid ha
  obtain ⟨hsize, -, -, -⟩ := acquireOutput_ok hout
  have hh := packHeader_length hhead
  have htotal := le_totalSize a
  have hframe := Analysis.frame_le hstart
  have hroom : headerSize ≤ binary.size := by omega
  have hheader := packInto_run hhead hroom
    { w₂ with mem := w₂.mem.write binary.base (List.replicate a.dataStart 0) }
  have hmeta := assignSlice_run binary headerSize a.metadataJson (by omega) { w₂ with
    mem := (w₂.mem.write binary.base (List.replicate a.dataStart 0)).write binary.base header }
  rw [write_frame hh hframe] at hmeta
  have htail := zeroGap_run (w := { w₂ with mem := w₂.mem.write binary.base written })
    rfl hwritten (Nat.le_of_eq hsize.symm)
  unfold encode
  rw [bind_ok ha]
  refine (bind_ok (prepareOutput_run hout (by omega)) _).trans ?_
  rw [bind_ok hheader, bind_ok hmeta, bind_ok harrays, bind_ok htail, pure_run]

/-- `encode` writes the container over the start of its output and touches nothing else. -/
theorem encode_run {R : Runtime} {model : Model} {out : Option Argument}
    {blobStore : Option (BlobStore σ)} {externalizeMinBytes : Option ℤ} {w w₁ w₂ : World σ}
    {a : Analysis} {header : List UInt8} {binary : Buffer}
    (ha : analyzeModel R model blobStore externalizeMinBytes w = .ok a w₁)
    (hhead : packHeader a = .ok header)
    (hout : acquireOutput R a.totalSize out w₁ = .ok binary w₂)
    (hsurvive : SourcesSurvive w₂.mem binary.base (frame a header) 0 a.arrays) :
    encode R model out blobStore externalizeMinBytes w = .ok binary { w₂ with
      mem := w₂.mem.write binary.base (containerBytes a header w₂.mem) } := by
  obtain ⟨hl, hstart⟩ := analyzeModel_laid ha
  obtain ⟨hsize, -, -, -⟩ := acquireOutput_ok hout
  have htotal := le_totalSize a
  have hflen := frame_length (packHeader_length hhead) (Analysis.frame_le hstart)
  have hblen := body_length w₂.mem hl
  refine encode_run_of ha hhead hout ?_ (writeArrays_run
    (w := { w₂ with mem := w₂.mem.write binary.base (frame a header) })
    hl (show a.dataStart + a.dataBytes ≤ binary.size by omega) hflen hsurvive rfl)
  rw [List.length_append]
  omega

section Returned
variable {R : Runtime} {model : Model} {out : Option Argument} {blobStore : Option (BlobStore σ)}
  {externalizeMinBytes : Option ℤ} {w w' : World σ} {binary : Buffer}

theorem acquireOutput_of_prepare {n dataStart : ℕ}
    (h : prepareOutput R out n dataStart w = .ok binary w') :
    ∃ w₁, acquireOutput R n out w = .ok binary w₁ := by
  unfold prepareOutput at h
  rw [bind_eq_ok] at h
  obtain ⟨b, w₁, hacquire, h⟩ := h
  rw [bind_eq_ok] at h
  obtain ⟨u, w₂, -, h⟩ := h
  cases h
  exact ⟨w₁, hacquire⟩

theorem encode_parts (h : encode R model out blobStore externalizeMinBytes w = .ok binary w') :
    ∃ a w₁ w₂ header, analyzeModel R model blobStore externalizeMinBytes w = .ok a w₁ ∧
      acquireOutput R a.totalSize out w₁ = .ok binary w₂ ∧ packHeader a = .ok header := by
  unfold encode at h
  rw [bind_eq_ok] at h
  obtain ⟨a, w₁, ha, h⟩ := h
  rw [bind_eq_ok] at h
  obtain ⟨b, w₂, hprepare, h⟩ := h
  rw [bind_eq_ok] at h
  obtain ⟨u, w₃, hpack, h⟩ := h
  rw [bind_eq_ok] at h
  obtain ⟨u₁, w₄, -, h⟩ := h
  rw [bind_eq_ok] at h
  obtain ⟨u₂, w₅, -, h⟩ := h
  rw [bind_eq_ok] at h
  obtain ⟨u₃, w₆, -, h⟩ := h
  cases h
  obtain ⟨w₈, hacquire⟩ := acquireOutput_of_prepare hprepare
  obtain ⟨header, hhead⟩ := packInto_ok hpack
  exact ⟨a, w₁, w₈, header, ha, hacquire, hhead⟩

theorem packHeader_of_encode {w₁ : World σ} {a : Analysis}
    (ha : analyzeModel R model blobStore externalizeMinBytes w = .ok a w₁)
    (h : encode R model out blobStore externalizeMinBytes w = .ok binary w') :
    ∃ header, packHeader a = .ok header := by
  obtain ⟨a', w₁', w₂, header, ha', -, hhead⟩ := encode_parts h
  cases ha.symm.trans ha'
  exact ⟨header, hhead⟩

/-- Header and metadata stand at the start of the output, whatever became of the arrays. -/
theorem encode_written {w₁ w₂ : World σ} {a : Analysis} {header : List UInt8}
    (ha : analyzeModel R model blobStore externalizeMinBytes w = .ok a w₁)
    (hhead : packHeader a = .ok header)
    (hout : acquireOutput R a.totalSize out w₁ = .ok binary w₂) :
    ∃ rest, (frame a header ++ rest).length = a.totalSize ∧
      encode R model out blobStore externalizeMinBytes w = .ok binary { w₂ with
        mem := w₂.mem.write binary.base (frame a header ++ rest) } := by
  obtain ⟨hl, hstart⟩ := analyzeModel_laid ha
  obtain ⟨hsize, -, -, -⟩ := acquireOutput_ok hout
  have htotal := le_totalSize a
  have hflen := frame_length (packHeader_length hhead) (Analysis.frame_le hstart)
  obtain ⟨rest, hlen, hloop⟩ := writeArrays_written
    (w := { w₂ with mem := w₂.mem.write binary.base (frame a header) }) hl
    (show a.dataStart + a.dataBytes ≤ binary.size by omega) hflen rfl
  refine ⟨rest ++ List.replicate (a.totalSize - (a.dataStart + a.dataBytes)) 0, ?_, ?_⟩
  · rw [← List.append_assoc, List.length_append, hlen, List.length_replicate]
    omega
  · rw [← List.append_assoc]
    exact encode_run_of ha hhead hout hlen hloop

end Returned

end Npb
