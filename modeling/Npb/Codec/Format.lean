import Mathlib.Order.Bounds.Defs
import Npb.Foundations.StructFormat
import Npb.Numpy.Views

/-! # Physical container format

The constants and the 64-byte header of `_format.py`: `alignUp`, `headerFormat` and the checks of
`parseHeader`, in the source's order. -/

namespace Npb
set_option autoImplicit false
open Effects Numpy

def magic : Vector UInt8 4 := ⟨#[78, 80, 66, 49], rfl⟩
def formatVersion : ℕ := 1
def frameSize : ℕ := 64 * 1024
def arrayAlignment : ℕ := 64

open Struct.Field in
/-- `struct.Struct("<4sHHI16sIIQQQ4x")`. -/
abbrev headerFormat : List Struct.Field :=
  [bytes 4, uint 2, uint 2, uint 4, bytes 16, uint 4, uint 4, uint 8, uint 8, uint 8, pad 4]

def headerSize : ℕ := Struct.calcsize headerFormat

example : headerSize = 64 := rfl

structure UUID where
  bytes : Vector UInt8 16
  deriving DecidableEq

/-- The usual text form, `8-4-4-4-12` hexadecimal digits. -/
def UUID.str (u : UUID) : String :=
  let digit (n : ℕ) : Char := "0123456789abcdef".toList.getD n '0'
  let hex (b : UInt8) : List Char := [digit (b.toNat / 16), digit (b.toNat % 16)]
  let group (lo n : ℕ) : List Char := ((u.bytes.toList.drop lo).take n).flatMap hex
  "-".intercalate ([group 0 4, group 4 2, group 6 2, group 8 2, group 10 6].map String.ofList)

structure BinaryInfo where
  formatVersion : ℕ
  frameSize : ℕ
  schemaId : UUID
  schemaVersion : ℕ
  metadataBytes : ℕ
  dataStart : ℕ
  dataBytes : ℕ
  totalBytes : ℕ
  deriving DecidableEq

/-- Round `value` up to the next multiple of `alignment`. -/
def alignUp (value alignment : ℕ) : ℕ := (value + alignment - 1) / alignment * alignment

/-- The checks `require_binary_array` and `_prepare_output` share: the argument as a
one-dimensional C-contiguous `uint8` array, and whether it may be written. -/
def requireByteArray (name : String) : Argument → Except PyError (Buffer × Bool)
  | .notArray => .error (.typeError s!"{name} must be a numpy.ndarray")
  | .array a writeable =>
    if a.dtype ≠ uint8 then .error (.typeError s!"{name} dtype must be np.uint8")
    else
      match h : a.shape with
      | [n] =>
        if a.isCContiguous then
          .ok (⟨a.data, n, a.shape_ok.2.1 n (by rw [h]; exact List.mem_singleton_self n)⟩,
            writeable)
        else .error (.valueError s!"{name} must be C-contiguous")
      | _ => .error (.valueError s!"{name} must be a 1-D array")

def requireBinaryArray (binary : Argument) : Except PyError Buffer := do
  let r ← requireByteArray "binary" binary
  return r.1

/-- `parse_header` on a checked buffer whose bytes are in `mem`. -/
def parseHeaderIn (mem : Mem) (binary : Buffer) : Except PyError BinaryInfo := do
  raiseIf (binary.size < headerSize) (.formatError "encoded array is too small")
  let (magic', version, flags, frame, schemaIdBytes, schemaVersion, metadataBytes, dataStart,
    dataBytes, encodedBytes, _) := Struct.unpack headerFormat (mem.read binary.base headerSize)
  raiseIf (magic' ≠ magic) (.formatError "invalid NPB magic")
  raiseIf (version ≠ formatVersion)
    (.formatError s!"unsupported NPB format version: {version}")
  raiseIf (flags ≠ 0) (.formatError s!"unsupported NPB flags: {flags}")
  raiseIf (frame ≠ frameSize) (.formatError s!"unsupported frame size: {frame}")
  raiseIf (encodedBytes < frame)
    (.formatError "encoded container is smaller than one frame")
  raiseIf (binary.size < encodedBytes)
    (.formatError "encoded container exceeds the supplied buffer")
  raiseIf (encodedBytes % frame ≠ 0)
    (.formatError "encoded container size is not frame-aligned")
  let metadataEnd := headerSize + metadataBytes
  raiseIf (dataStart < metadataEnd) (.formatError "metadata overlaps the DATA section")
  raiseIf (dataStart % frame ≠ 0) (.formatError "DATA section is not frame-aligned")
  raiseIf (encodedBytes < dataStart + dataBytes)
    (.formatError "DATA section exceeds the encoded container")
  return {
    formatVersion := version
    frameSize := frame
    schemaId := ⟨schemaIdBytes⟩
    schemaVersion := schemaVersion
    metadataBytes := metadataBytes
    dataStart := dataStart
    dataBytes := dataBytes
    totalBytes := encodedBytes }

def parseHeader {σ : Type} (binary : Argument) : Py σ (Buffer × BinaryInfo) := do
  let b ← fromExcept (requireBinaryArray binary)
  let w ← get
  let info ← fromExcept (parseHeaderIn w.mem b)
  return (b, info)

/-! ## Alignment -/

theorem alignUp_dvd (value : ℕ) {alignment : ℕ} : alignment ∣ alignUp value alignment :=
  Nat.dvd_mul_left ..

theorem le_alignUp (value : ℕ) {alignment : ℕ} (h : 0 < alignment) :
    value ≤ alignUp value alignment := by
  have hm := Nat.div_add_mod (value + alignment - 1) alignment
  have hr := Nat.mod_lt (value + alignment - 1) h
  rw [Nat.mul_comm] at hm
  rw [alignUp]
  omega

theorem alignUp_lt (value : ℕ) {alignment : ℕ} (h : 0 < alignment) :
    alignUp value alignment < value + alignment := by
  have hm := Nat.div_add_mod (value + alignment - 1) alignment
  rw [Nat.mul_comm] at hm
  rw [alignUp]
  omega

theorem alignUp_le_of_dvd {value alignment n : ℕ} (hd : alignment ∣ n)
    (hle : value ≤ n) : alignUp value alignment ≤ n := by
  obtain ⟨k, rfl⟩ := hd
  by_cases h : alignment = 0
  · subst h
    rw [alignUp, Nat.mul_zero]
    exact Nat.zero_le _
  have hlt := alignUp_lt value (Nat.pos_of_ne_zero h)
  rw [alignUp] at hlt ⊢
  rw [Nat.mul_comm alignment k] at hle ⊢
  refine Nat.mul_le_mul_right _ (Nat.le_of_lt_succ ?_)
  refine Nat.lt_of_mul_lt_mul_right (a := alignment) ?_
  rw [Nat.succ_mul]
  omega

/-- `alignUp` is the least multiple that is large enough. -/
theorem alignUp_isLeast (value : ℕ) {alignment : ℕ} (h : 0 < alignment) :
    IsLeast {n | alignment ∣ n ∧ value ≤ n} (alignUp value alignment) :=
  ⟨⟨alignUp_dvd value, le_alignUp value h⟩, fun _ hn => alignUp_le_of_dvd hn.1 hn.2⟩

/-! ## What an accepted header guarantees -/

/-- The header at the start of the buffer is well formed, and `info` is what it says. -/
structure Accepted (mem : Mem) (binary : Buffer) (info : BinaryInfo) : Prop where
  fields : Struct.unpack headerFormat (mem.read binary.base headerSize) =
    (magic, info.formatVersion, 0, info.frameSize, info.schemaId.bytes, info.schemaVersion,
      info.metadataBytes, info.dataStart, info.dataBytes, info.totalBytes, ())
  version : info.formatVersion = formatVersion
  frame : info.frameSize = frameSize
  one_frame : frameSize ≤ info.totalBytes
  total_le : info.totalBytes ≤ binary.size
  total_aligned : info.totalBytes % frameSize = 0
  metadata_le : headerSize + info.metadataBytes ≤ info.dataStart
  start_aligned : info.dataStart % frameSize = 0
  data_le : info.dataStart + info.dataBytes ≤ info.totalBytes

theorem parseHeaderIn_eq_ok {mem : Mem} {binary : Buffer} {info : BinaryInfo} :
    parseHeaderIn mem binary = .ok info ↔ Accepted mem binary info := by
  rcases hfields : Struct.unpack headerFormat (mem.read binary.base headerSize) with
    ⟨magic', version, flags, frame, schemaIdBytes, schemaVersion, metadataBytes, dataStart,
      dataBytes, encodedBytes, u⟩
  constructor
  · intro h
    unfold parseHeaderIn at h
    rw [hfields] at h
    simp only [raiseIf_bind_eq_ok, not_not, not_lt] at h
    obtain ⟨-, rfl, rfl, rfl, rfl, hone, htotal, haligned, hmeta, hstart, hdata, h⟩ := h
    cases h
    exact ⟨hfields, rfl, rfl, hone, htotal, haligned, hmeta, hstart, hdata⟩
  · intro h
    have hsize : headerSize ≤ binary.size :=
      (by decide : headerSize ≤ frameSize).trans (h.one_frame.trans h.total_le)
    obtain ⟨version', frame', schemaId', schemaVersion', metadataBytes', dataStart', dataBytes',
      totalBytes'⟩ := info
    obtain ⟨hinfo, rfl, rfl, hone, htotal, haligned, hmeta, hstart, hdata⟩ := h
    cases hfields.symm.trans hinfo
    unfold parseHeaderIn
    rw [hfields]
    simp only [raiseIf_bind_eq_ok, not_not, not_lt]
    exact ⟨hsize, trivial, trivial, trivial, trivial, hone, htotal, haligned, hmeta, hstart, hdata,
      rfl⟩

theorem requireByteArray_toArray (name : String) (b : Buffer) (writeable : Bool) :
    requireByteArray name (.array b.toArray writeable) = .ok (b, writeable) := by
  have hc : b.toArray.isCContiguous = true := NdArray.cArray_isCContiguous ..
  simp [requireByteArray, hc]
  rfl

theorem requireBinaryArray_toArray (b : Buffer) (writeable : Bool) :
    requireBinaryArray (.array b.toArray writeable) = .ok b := by
  rw [requireBinaryArray, requireByteArray_toArray]
  rfl

theorem requireByteArray_eq_ok {name : String} {arg : Argument} {b : Buffer} {writeable : Bool}
    (h : requireByteArray name arg = .ok (b, writeable)) :
    ∃ a, arg = .array a writeable ∧ a.isCContiguous = true ∧ b.base = a.data ∧
      b.size = a.nbytes := by
  cases arg with
  | notArray => cases h
  | array a writeable' =>
    dsimp only [requireByteArray] at h
    split at h
    · cases h
    next hdtype =>
    rw [not_not] at hdtype
    split at h
    · next k hshape =>
      split at h
      · next hc =>
        cases h
        have hbytes : a.nbytes = k := by
          rw [NdArray.nbytes, NdArray.size, hshape, hdtype]
          simp [uint8]
        exact ⟨a, rfl, hc, rfl, hbytes.symm⟩
      · cases h
    · cases h

end Npb
