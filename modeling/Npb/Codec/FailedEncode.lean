import Npb.Codec.Overwrite

/-! # What a failed `encode` leaves in `out`

Every check but one comes before the first write to `out`: `_prepare_output` zeroes the frame, and
only then does `HEADER.pack_into` find out that a number does not fit. -/

namespace Npb
set_option autoImplicit false
open Effects Numpy

variable {σ : Type}

/-- The frame as a failing `pack_into` leaves it. -/
def Analysis.tornFrame (a : Analysis) : List UInt8 :=
  Struct.packed headerFormat (headerValues a) ++ List.replicate (a.dataStart - headerSize) 0

theorem packInto_error {binary : Buffer} {a : Analysis} {e : PyError}
    (hhead : packHeader a = .error e) (hroom : headerSize ≤ binary.size) (w : World σ) :
    packInto binary a w = .error e { w with
      mem := w.mem.write binary.base (Struct.packed headerFormat (headerValues a)) } := by
  have hpacked : (Struct.packed headerFormat (headerValues a)).length = headerSize :=
    Struct.packed_length _ _
  have hwrite := assignSlice_run binary 0 (Struct.packed headerFormat (headerValues a))
    (by omega) w
  simp only [Nat.cast_zero, add_zero] at hwrite
  rw [packInto, bind_ok hwrite]
  exact bind_error (fromExcept_eq_error.mpr ⟨hhead, rfl⟩) _

section Failed
variable {R : Runtime} {model : Model} {out : Option Argument} {blobStore : Option (BlobStore σ)}
  {externalizeMinBytes : Option ℤ} {w w' w₁ w₂ : World σ} {a : Analysis} {binary : Buffer}
  {e : PyError}

/-- A header that does not fit raises when the frame has been zeroed. -/
theorem encode_torn (ha : analyzeModel R model blobStore externalizeMinBytes w = .ok a w₁)
    (hout : acquireOutput R a.totalSize out w₁ = .ok binary w₂) (hhead : packHeader a = .error e) :
    encode R model out blobStore externalizeMinBytes w = .error e { w₂ with
      mem := w₂.mem.write binary.base a.tornFrame } := by
  have hstart := (analyzeModel_laid ha).2
  have hframe := Analysis.frame_le hstart
  have htotal := le_totalSize a
  have hsize := (acquireOutput_ok hout).1
  have hpacked : (Struct.packed headerFormat (headerValues a)).length = headerSize :=
    Struct.packed_length _ _
  unfold encode
  rw [bind_ok ha]
  refine (bind_ok (prepareOutput_run hout (by omega)) _).trans ?_
  rw [bind_error (packInto_error hhead (by omega) _),
    Mem.write_overlay _ _ _ _ (by rw [List.length_replicate]; omega), List.drop_replicate, hpacked]
  rfl

end Failed

/-! ## The bytes of `out` -/

section Output
variable {R : Runtime} {model : Model} {o : NdArray} {writeable : Bool}
  {blobStore : Option (BlobStore σ)} {externalizeMinBytes : Option ℤ} {w w' : World σ} {e : PyError}

end Output

/-! ## A version that does not fit -/

section Wide

def wideRuntime : Runtime := .ofDocument (.dict []) "\x7b\x7d" 4096

def wideAnalysis : Analysis where
  schemaId := ⟨Vector.replicate 16 7⟩
  schemaVersion := 2 ^ 32
  dataBytes := 0
  dataStart := alignUp (headerSize + (asciiBytes "\x7b\x7d").length) frameSize
  arrays := []
  metadataJson := asciiBytes "\x7b\x7d"

end Wide
end Npb
