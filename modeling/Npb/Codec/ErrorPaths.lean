import Npb.Codec.Containment

/-! # What a malformed container raises

The decoder turns the failures it expects into `FormatError`. `manifestChecks` lists, in document
order, all that it asks of the references of a manifest. Three of these failures get past its
`except` clauses: an infinite number, a shape NumPy refuses, and whatever else `np.dtype` raises. -/

namespace Npb
set_option autoImplicit false
open Effects Numpy

variable {σ : Type}

namespace PyError

/-- What `decode` may raise before `model_validate`. -/
def IsReported : PyError → Prop
  | formatError _ | schemaMismatchError _ | blobStoreRequiredError _ => True
  | _ => False

theorem IsFormatError.isReported {e : PyError} (h : e.IsFormatError) : e.IsReported := by
  cases e <;> trivial

theorem not_isFormatError_of_uncaught {e : PyError} (h : e.isTypeOrValueError = false) :
    ¬ e.IsFormatError := by
  cases e <;> simp_all [isTypeOrValueError, isValueError, IsFormatError]

end PyError

theorem describes_catching {α : Type} {caught : PyError → Bool} {raised : PyError}
    {cs : List Check} {x : Except PyError α} {reported : PyError → Prop} (hraised : reported raised)
    (hescape : ∀ e, caught e = false → ¬ reported e)
    (h : Describes (fun e => caught e = true) cs x) :
    Describes reported cs (catching caught raised x) := by
  constructor
  · simp only [catching_eq_ok]
    exact h.returns
  · rw [← h.raises]
    constructor
    · rintro ⟨e, he, hnot⟩
      obtain ⟨e', hx, ⟨-, rfl⟩ | ⟨hcaught, -⟩⟩ := catching_error he
      · exact absurd hraised hnot
      · exact ⟨e', hx, by simp [hcaught]⟩
    · rintro ⟨e, rfl, hcaught⟩
      rw [Bool.not_eq_true] at hcaught
      exact ⟨e, by simp [catching, hcaught], hescape e hcaught⟩

/-! ## Fields of a reference -/

def Scalar.isInfinite : Scalar → Bool
  | .float (.inf _) => true
  | .generic item => item.isInfinite
  | _ => false

/-- `Infinity` or `-Infinity`, on which `int()` raises `OverflowError`. -/
def Infinite : Json → Prop
  | .leaf s => s.isInfinite = true
  | _ => False

/-- What the `except` clause of either branch lists. -/
def Listed (e : PyError) : Prop := e.isLookupOrConversionError = true

section Fields
variable (R : Runtime)

def intCheck (j : Json) : Check := ⟨∃ i, pyInt R.intOfStr j = .ok i, Infinite j⟩

def strCheck (j : Json) : Check := ⟨∃ s, pyStr R.strOf j = .ok s, False⟩

/-- `np.dtype(j)` under an `except` clause that lists `caught`. -/
def dtypeCheck (caught : PyError → Bool) (j : Json) : Check :=
  ⟨∃ d, R.dtype j = .ok d, ∃ e, R.dtype j = .error e ∧ caught e = false⟩

def intsChecks (j : Json) : List Check :=
  match pyIter j with
  | .ok items => items.flatMap fun d => [intCheck R d]
  | .error _ => [Check.rejected]

/-- The checks on `mapping[key]`. -/
def fieldChecks (kvs : List (String × Json)) (key : String) (checks : Json → List Check) :
    List Check :=
  match kvs.lookup key with
  | some j => checks j
  | none => [Check.rejected]

theorem describes_pyInt (j : Json) : Describes Listed [intCheck R j] (pyInt R.intOfStr j) := by
  have hscalar : ∀ s : Scalar, (∃ e, pyInt.ofScalar R.intOfStr s = .error e ∧ ¬ Listed e) ↔
      s.isInfinite = true := by
    intro s
    induction s with
    | generic item ih => exact ih
    | float x =>
      cases x <;> simp [pyInt.ofScalar, PyFloat.toInt, Scalar.isInfinite, Listed,
        PyError.isLookupOrConversionError, PyError.isTypeOrValueError, PyError.isValueError]
    | str s =>
      rw [pyInt.ofScalar]
      cases R.intOfStr s <;> simp [Scalar.isInfinite, Listed,
        PyError.isLookupOrConversionError, PyError.isTypeOrValueError, PyError.isValueError]
    | _ => simp [pyInt.ofScalar, Scalar.isInfinite, Listed,
        PyError.isLookupOrConversionError, PyError.isTypeOrValueError, PyError.isValueError]
  refine ⟨by simp [intCheck], ?_⟩
  simp only [Escapes, intCheck, and_false, or_false]
  cases j with
  | leaf s => exact hscalar s
  | list xs => simp [pyInt, Infinite, Listed, PyError.isLookupOrConversionError,
      PyError.isTypeOrValueError]
  | dict kvs => simp [pyInt, Infinite, Listed, PyError.isLookupOrConversionError,
      PyError.isTypeOrValueError]

theorem describes_pyStr (j : Json) : Describes Listed [strCheck R j] (pyStr R.strOf j) := by
  refine ⟨by simp [strCheck], ?_⟩
  simp only [Escapes, strCheck, and_false, or_false, iff_false]
  rintro ⟨e, he, hnot⟩
  unfold pyStr at he
  split at he
  · cases he
  · split at he
    · cases he
    · cases he
      exact hnot rfl

theorem describes_dtype (caught : PyError → Bool) (j : Json) :
    Describes (fun e => caught e = true) [dtypeCheck R caught j] (R.dtype j) := by
  constructor <;> simp [dtypeCheck, Escapes]

theorem describes_pyInts (j : Json) :
    Describes Listed (intsChecks R j)
      (pyIter j >>= fun items => items.mapM (pyInt R.intOfStr)) := by
  unfold intsChecks
  cases hiter : pyIter j with
  | ok items => exact Describes.mapM items fun d _ => describes_pyInt R d
  | error e =>
    refine Describes.error ?_
    cases j with
    | leaf s =>
      cases s <;> cases hiter <;> rfl
    | list xs => cases hiter
    | dict kvs => cases hiter

theorem describes_field {α : Type} (kvs : List (String × Json)) (key : String)
    {checks : Json → List Check} {f : Json → Except PyError α}
    (h : ∀ j, Describes Listed (checks j) (f j)) :
    Describes Listed (fieldChecks kvs key checks) (pyItem kvs key >>= f) := by
  unfold fieldChecks pyItem
  cases kvs.lookup key with
  | some j => exact h j
  | none => exact Describes.error rfl

end Fields

/-! ## Inline references -/

/-- The reference passes the checks of the `$bin` branch. -/
def BinRef.IsSound (dataBytes : ℕ) (ref : BinRef) : Prop :=
  ∃ relOffset nbytes shape, ref = .ofNat relOffset nbytes ref.dtype shape ∧
    BinRef.Sound dataBytes ref.dtype relOffset nbytes shape

/-- NumPy can make a flat array of so many elements, and give it the shape. -/
def Viewable : NpDtype → List ℕ → Prop
  | .plain d, shape => ShapeOk d.itemsize shape
  | .subarray base block, shape =>
    ShapeOk base.itemsize (shape.prod :: block) ∧ shape.prod * block.prod = shape.prod ∧
      ShapeOk base.itemsize shape

/-- The reference is sound, and NumPy can make the view. -/
def viewCheck (dataBytes : ℕ) (ref : BinRef) : Check where
  passes := ref.IsSound dataBytes ∧ Viewable ref.dtype (ref.shape.map Int.toNat)
  escapes := ref.IsSound dataBytes ∧ ¬ Viewable ref.dtype (ref.shape.map Int.toNat)

section Bin
variable (R : Runtime) {binary : Buffer} {dataStart dataBytes : ℕ}

def binFieldChecks (ref : List (String × Json)) : List Check :=
  fieldChecks ref "offset" (fun j => [intCheck R j]) ++
    (fieldChecks ref "nbytes" (fun j => [intCheck R j]) ++
      (fieldChecks ref "dtype" (fun j => [dtypeCheck R PyError.isLookupOrConversionError j]) ++
        fieldChecks ref "shape" (intsChecks R)))

def binChecks (dataBytes : ℕ) (ref : List (String × Json)) : List Check :=
  binFieldChecks R ref ++
    match convertBin R ref with
    | .ok r => [viewCheck dataBytes r]
    | .error _ => []

theorem convertBin_eq (ref : List (String × Json)) : convertBin R ref = (do
    let relOffset ← pyItem ref "offset" >>= fun j => pyInt R.intOfStr j
    let nbytes ← pyItem ref "nbytes" >>= fun j => pyInt R.intOfStr j
    let dtype ← pyItem ref "dtype" >>= fun j => R.dtype j
    let shape ← pyItem ref "shape" >>= fun j =>
      pyIter j >>= fun items => items.mapM (pyInt R.intOfStr)
    return ⟨relOffset, nbytes, dtype, shape⟩) := by
  simp only [convertBin, bind_assoc]

theorem describes_convertBin (ref : List (String × Json)) :
    Describes Listed (binFieldChecks R ref) (convertBin R ref) := by
  rw [convertBin_eq]
  refine (describes_field ref "offset" (describes_pyInt R)).bind fun relOffset _ => ?_
  refine (describes_field ref "nbytes" (describes_pyInt R)).bind fun nbytes _ => ?_
  refine (describes_field ref "dtype" (describes_dtype R _)).bind fun dtype _ => ?_
  exact (describes_field ref "shape" (describes_pyInts R)).map
    fun shape => (⟨relOffset, nbytes, dtype, shape⟩ : BinRef)

theorem view_isOk_iff (data : ℤ) {dtype : NpDtype} (shape : List ℕ)
    (hitem : dtype.itemsize ≠ 0) :
    (∃ a, (do
      let flat ← elementsAt data dtype shape.prod
      reshape flat (shape.map fun d : ℕ => (d : ℤ))) = .ok a) ↔ Viewable dtype shape := by
  simp only [except_bind_eq_ok, reshape_eq_ok]
  cases dtype with
  | plain d =>
    constructor
    · rintro ⟨a, flat, hflat, -, hshape, -⟩
      obtain ⟨hone, rfl⟩ := mkArray_eq_ok.mp hflat
      exact hshape
    · intro h
      have hone : ShapeOk d.itemsize [shape.prod] := shapeOk_flat h (Nat.pos_of_ne_zero hitem)
      exact ⟨_, _, mkArray_eq_ok.mpr ⟨hone, rfl⟩, (List.prod_singleton).symm, h, rfl⟩
  | subarray base block =>
    constructor
    · rintro ⟨a, flat, hflat, hprod, hshape, -⟩
      obtain ⟨hblock, rfl⟩ := mkArray_eq_ok.mp hflat
      rw [NdArray.size, NdArray.cArray, List.prod_cons] at hprod
      exact ⟨hblock, hprod.symm, hshape⟩
    · rintro ⟨hblock, hprod, hshape⟩
      refine ⟨_, _, mkArray_eq_ok.mpr ⟨hblock, rfl⟩, ?_, hshape, rfl⟩
      rw [NdArray.size, NdArray.cArray, List.prod_cons, hprod]

theorem view_error {data : ℤ} {dtype : NpDtype} {n : ℕ} {shape : List ℤ} {e : PyError}
    (h : (do
      let flat ← elementsAt data dtype n
      reshape flat shape) = .error e) : ¬ e.IsFormatError := by
  obtain h | ⟨flat, -, h⟩ := except_bind_eq_error.mp h
  · obtain ⟨message, rfl⟩ := elementsAt_error h
    exact id
  · obtain ⟨message, rfl⟩ := reshape_error h
    exact id

theorem describes_viewBin (hroom : dataStart + dataBytes ≤ binary.size) (ref : BinRef) :
    Describes PyError.IsFormatError [viewCheck dataBytes ref]
      (viewBin binary dataStart dataBytes ref) := by
  rcases sound_or_rejected dataBytes ref with
    ⟨relOffset, nbytes, shape, href, hsound⟩ | ⟨message, -, herror⟩
  · have hIs : ref.IsSound dataBytes := ⟨relOffset, nbytes, shape, href, hsound⟩
    have hdims : ref.shape.map Int.toNat = shape := by
      rw [href, BinRef.ofNat]
      exact map_toNat_natCast shape
    have hview := viewBin_of_sound hroom hsound
    rw [← href] at hview
    have hok := view_isOk_iff (binary.base + (dataStart + relOffset : ℕ)) shape hsound.item
    rw [← hview] at hok
    constructor
    · simp [viewCheck, hIs, hdims, hok]
    · simp only [Escapes, viewCheck, hIs, hdims, true_and, and_false, or_false]
      rw [← hok]
      constructor
      · rintro ⟨e, he, -⟩ ⟨a, ha⟩
        rw [he] at ha
        cases ha
      · intro hnot
        cases hv : viewBin binary dataStart dataBytes ref with
        | ok a => exact absurd ⟨a, hv⟩ hnot
        | error e =>
          rw [hview] at hv
          exact ⟨e, rfl, view_error hv⟩
  · have hnot : ¬ ref.IsSound dataBytes := by
      rintro ⟨relOffset, nbytes, shape, href, hsound⟩
      have hrun := viewBin_of_sound hroom hsound
      rw [← href, herror] at hrun
      exact view_error hrun.symm trivial
    rw [herror]
    constructor
    · simp [viewCheck, hnot]
    · simp [Escapes, viewCheck, hnot, PyError.IsFormatError]

theorem describes_restoreBin (hroom : dataStart + dataBytes ≤ binary.size)
    (ref : List (String × Json)) :
    Describes PyError.IsFormatError (binChecks R dataBytes ref)
      (restoreBin R binary dataStart dataBytes ref) := by
  have huncaught : ∀ e, PyError.isLookupOrConversionError e = false → ¬ e.IsFormatError :=
    fun e he => PyError.not_isFormatError_of_uncaught (by cases e <;> simp_all
      [PyError.isLookupOrConversionError, PyError.isTypeOrValueError])
  have hconvert := describes_catching
    (show PyError.IsFormatError (.formatError "invalid ndarray reference") from trivial)
    huncaught (describes_convertBin R ref)
  refine hconvert.bind fun r hr => ?_
  rw [catching_eq_ok.mp hr]
  exact describes_viewBin hroom r

end Bin

/-! ## External references -/

/-- The checks of `from_manifest` on a converted reference. -/
def blobRefChecks (R : Runtime) (ref : BlobRef) : List Check := [
  ⟨ref.store ≠ "", False⟩,
  ⟨ref.objectId ≠ "", False⟩,
  ⟨¬ (ref.offset < 0 ∨ ref.nbytes < 0), False⟩,
  ⟨¬ ref.shape.any (· < 0) = true, False⟩,
  dtypeCheck R PyError.isTypeOrValueError (.leaf (.str ref.dtype)),
  ⟨∃ d, R.dtype (.leaf (.str ref.dtype)) = .ok d ∧ (d.hasobject || d.hasfields) = false ∧
    d.itemsize * ref.shape.prod = ref.nbytes, False⟩]

section Blob
variable (R : Runtime)

def blobFieldChecks (value : List (String × Json)) : List Check :=
  fieldChecks value "store" (fun j => [strCheck R j]) ++
    (fieldChecks value "id" (fun j => [strCheck R j]) ++
      (fieldChecks value "offset" (fun j => [intCheck R j]) ++
        (fieldChecks value "nbytes" (fun j => [intCheck R j]) ++
          (fieldChecks value "dtype" (fun j => [strCheck R j]) ++
            fieldChecks value "shape" (intsChecks R)))))

def blobChecks : Json → List Check
  | .dict value => blobFieldChecks R value ++
    match BlobRef.convert R value with
    | .ok ref => blobRefChecks R ref
    | .error _ => []
  | _ => [Check.rejected]

theorem convert_eq (value : List (String × Json)) : BlobRef.convert R value = (do
    let store ← pyItem value "store" >>= fun j => pyStr R.strOf j
    let objectId ← pyItem value "id" >>= fun j => pyStr R.strOf j
    let offset ← pyItem value "offset" >>= fun j => pyInt R.intOfStr j
    let nbytes ← pyItem value "nbytes" >>= fun j => pyInt R.intOfStr j
    let dtype ← pyItem value "dtype" >>= fun j => pyStr R.strOf j
    let shape ← pyItem value "shape" >>= fun j =>
      pyIter j >>= fun items => items.mapM (pyInt R.intOfStr)
    return ⟨store, objectId, offset, nbytes, dtype, shape⟩) := by
  simp only [BlobRef.convert, bind_assoc]

theorem describes_convert (value : List (String × Json)) :
    Describes Listed (blobFieldChecks R value) (BlobRef.convert R value) := by
  rw [convert_eq]
  refine (describes_field value "store" (describes_pyStr R)).bind fun store _ => ?_
  refine (describes_field value "id" (describes_pyStr R)).bind fun objectId _ => ?_
  refine (describes_field value "offset" (describes_pyInt R)).bind fun offset _ => ?_
  refine (describes_field value "nbytes" (describes_pyInt R)).bind fun nbytes _ => ?_
  refine (describes_field value "dtype" (describes_pyStr R)).bind fun dtype _ => ?_
  exact (describes_field value "shape" (describes_pyInts R)).map
    fun shape => (⟨store, objectId, offset, nbytes, dtype, shape⟩ : BlobRef)

theorem describes_check (ref : BlobRef) :
    Describes (fun e => e.isTypeOrValueError = true) (blobRefChecks R ref)
      (BlobRef.check R ref) := by
  unfold BlobRef.check blobRefChecks
  refine Describes.raiseIf_bind rfl ?_
  refine Describes.raiseIf_bind rfl ?_
  refine Describes.raiseIf_bind rfl ?_
  refine Describes.raiseIf_bind rfl ?_
  refine (describes_dtype R _ _).bind fun d hd => ?_
  constructor
  · simp only [raiseIf_bind_eq_ok, List.forall_mem_singleton, hd]
    simp [pure, Except.pure]
  · simp only [raiseIf_bind_eq_error, Escapes, and_false, or_false, iff_false]
    rintro ⟨e, ⟨-, rfl⟩ | ⟨-, ⟨-, rfl⟩ | ⟨-, he⟩⟩, hnot⟩
    · exact hnot rfl
    · exact hnot rfl
    · cases he

theorem describes_fromManifest (value : Json) :
    Describes (fun e => e.isTypeOrValueError = true) (blobChecks R value)
      (BlobRef.fromManifest R value) := by
  unfold blobChecks BlobRef.fromManifest
  cases value with
  | leaf s => exact Describes.error rfl
  | list xs => exact Describes.error rfl
  | dict kvs =>
    have huncaught : ∀ e, PyError.isLookupOrConversionError e = false →
        ¬ e.isTypeOrValueError = true :=
      fun e he => by cases e <;> simp_all [PyError.isLookupOrConversionError]
    have hraised : PyError.isTypeOrValueError (.typeError "invalid blob reference") = true := rfl
    have hconvert := describes_catching hraised huncaught (describes_convert R kvs)
    refine hconvert.bind fun ref href => ?_
    rw [catching_eq_ok.mp href]
    exact describes_check R ref

end Blob

/-! ## Manifests -/

/-- All that the decoder asks of one reference when there is no store. -/
def Reference.checks (R : Runtime) (dataBytes : ℕ) : Reference → List Check
  | .scalar _ => []
  | .bin ref => binChecks R dataBytes ref
  | .blob value => blobChecks R value

/-- All that the decoder asks of the references of a manifest, in document order. -/
def manifestChecks (R : Runtime) (dataBytes : ℕ) (manifest : Json) : List Check :=
  (references manifest).leaves.flatMap (Reference.checks R dataBytes)

section Decoder
variable {R : Runtime} {arg : Argument} {binary : Buffer} {info : BinaryInfo}

theorem describes_restoreOffline {dataStart dataBytes : ℕ}
    (hroom : dataStart + dataBytes ≤ binary.size) (r : Reference) :
    Describes PyError.IsFormatError (r.checks R dataBytes)
      (restoreOffline R binary dataStart dataBytes r) := by
  cases r with
  | scalar s => exact Describes.ok _
  | bin ref => exact (describes_restoreBin R hroom ref).map fun a => Tree.leaf (Leaf.ndarray a)
  | blob value =>
    have hcatch := describes_catching
      (show PyError.IsFormatError (.formatError "invalid external blob reference") from trivial)
      (fun e => PyError.not_isFormatError_of_uncaught) (describes_fromManifest R value)
    exact hcatch.map fun ref => Tree.leaf (Leaf.blobRef ref)

/-- `_decode_tree` lets an exception escape exactly when the manifest does. -/
theorem decodeOffline_escapes
    (hjson : ∀ bs e, R.fromJson bs = .error e → e.isValueError = true)
    (hroom : info.dataStart + info.dataBytes ≤ binary.size) (metadataJson : List UInt8) :
    (∃ e, decodeOffline R binary info metadataJson = .error e ∧ ¬ e.IsFormatError) ↔
      ∃ j, R.fromJson metadataJson = .ok j ∧ Escapes (manifestChecks R info.dataBytes j) := by
  unfold decodeOffline parseMetadata
  cases hparse : R.fromJson metadataJson with
  | error e =>
    have hcaught := hjson metadataJson e hparse
    have hrun : (catching PyError.isValueError (.formatError "invalid JSON metadata")
        (.error e) : Except PyError Json) = .error (.formatError "invalid JSON metadata") := by
      rw [catching, hcaught]
      rfl
    rw [hrun]
    constructor
    · rintro ⟨e', he, hnot⟩
      cases he
      exact absurd trivial hnot
    · rintro ⟨j, hj, -⟩
      cases hj
  | ok j =>
    have htree := Tree.describes_bindM (references j)
      (fun r => describes_restoreOffline (R := R) hroom r)
    have htop : ∀ tree e, topLevel tree = .error e → e.IsFormatError := by
      intro tree e he
      cases tree <;> cases he <;> trivial
    change (∃ e, (Tree.bindM (restoreOffline R binary info.dataStart info.dataBytes)
      (references j) >>= topLevel) = .error e ∧ ¬ e.IsFormatError) ↔ _
    constructor
    · rintro ⟨e, he, hnot⟩
      obtain he | ⟨tree, -, he⟩ := except_bind_eq_error.mp he
      · exact ⟨j, rfl, htree.raises.mp ⟨e, he, hnot⟩⟩
      · exact absurd (htop tree e he) hnot
    · rintro ⟨j', hj', hescape⟩
      cases hj'
      obtain ⟨e, he, hnot⟩ := htree.raises.mpr hescape
      exact ⟨e, except_bind_eq_error.mpr (.inl he), hnot⟩

theorem raises_reported {P : PyError → Prop} {c : Prop} [Decidable c] {e : PyError}
    {α : Type} {f : Unit → Except PyError α} (he : P e) (hf : ∀ e', f () = .error e' → P e') :
    ∀ e', (raiseIf c e >>= f) = .error e' → P e' := by
  intro e' h
  obtain ⟨-, rfl⟩ | ⟨-, h⟩ := raiseIf_bind_eq_error.mp h
  · exact he
  · exact hf e' h

theorem parseHeaderIn_error {mem : Mem} : ∀ e, parseHeaderIn mem binary = .error e →
    e.IsFormatError := by
  unfold parseHeaderIn
  refine raises_reported trivial ?_
  dsimp only
  repeat refine raises_reported trivial ?_
  intro e h
  cases h

theorem parseHeader_error {w w' : World σ} {e : PyError}
    (hrequire : requireBinaryArray arg = .ok binary) (h : parseHeader arg w = .error e w') :
    e.IsFormatError := by
  rw [parseHeader, bind_ok (fromExcept_eq_ok.mpr ⟨hrequire, rfl⟩), bind_ok (get_run w)] at h
  obtain h | ⟨info, w₁, -, h⟩ := bind_eq_error.mp h
  · exact parseHeaderIn_error e (fromExcept_eq_error.mp h).1
  · cases h

/-- `decode` raises what `decode_auto` does, or reports the schema or the missing store. -/
theorem decodeChecked_error {cls : ModelClass} {blobStore : Option (BlobStore σ)} {w w' : World σ}
    {e : PyError} (hcls : ∃ identity, schemaIdentity cls = .ok identity)
    (h : decodeChecked R cls arg blobStore w = .error e w') :
    decodeAuto R arg blobStore w = .error e w' ∨ e.IsReported := by
  obtain ⟨⟨expectedId, expectedVersion⟩, hid⟩ := hcls
  rw [decodeChecked, bind_ok (fromExcept_eq_ok.mpr ⟨hid, rfl⟩)] at h
  obtain herror | ⟨⟨b, info⟩, w₁, hheader, hschema⟩ := bind_eq_error.mp h
  · exact .inl (bind_error herror _)
  rw [decodeAuto, bind_ok hheader]
  obtain herror | ⟨u, w₂, hid₀, hversion⟩ := bind_eq_error.mp hschema
  · obtain ⟨-, rfl⟩ := raiseIf_eq_error.mp (fromExcept_eq_error.mp herror).1
    exact .inr trivial
  rw [(fromExcept_eq_ok.mp hid₀).2] at hversion
  obtain herror | ⟨u, w₃, hversion₀, htree⟩ := bind_eq_error.mp hversion
  · obtain ⟨-, rfl⟩ := raiseIf_eq_error.mp (fromExcept_eq_error.mp herror).1
    exact .inr trivial
  rw [(fromExcept_eq_ok.mp hversion₀).2] at htree
  obtain herror | ⟨tree, w₄, -, hstore⟩ := bind_eq_error.mp htree
  · exact .inl herror
  obtain herror | ⟨u, w₅, -, hreturn⟩ := bind_eq_error.mp hstore
  · obtain ⟨-, rfl⟩ := raiseIf_eq_error.mp (fromExcept_eq_error.mp herror).1
    exact .inr trivial
  · cases hreturn

/-- On any buffer, `decode_auto` without a store raises only format errors, and `decode` only
those and the schema and store errors, exactly when no exception escapes the checks of the manifest:
the first check that does not pass is not an infinite number, nor a sound shape NumPy cannot view,
nor a dtype on which `np.dtype` raises something else. -/
theorem decode_reports_iff
    (hjson : ∀ bs e, R.fromJson bs = .error e → e.isValueError = true)
    (hrequire : requireBinaryArray arg = .ok binary) (w : World σ) :
    ((∀ e w', decodeAuto R arg none w = .error e w' → e.IsFormatError) ∧
      ∀ cls, (∃ identity, schemaIdentity cls = .ok identity) →
        ∀ e w', decodeChecked R cls arg none w = .error e w' → e.IsReported) ↔
    ∀ info manifest, Accepted w.mem binary info →
      R.fromJson (w.mem.read (binary.base + headerSize) info.metadataBytes) = .ok manifest →
      ¬ Escapes (manifestChecks R info.dataBytes manifest) := by
  have hauto : ∀ info, Accepted w.mem binary info → decodeAuto R arg none w =
      fromExcept (decodeOffline R binary info
        (w.mem.read (binary.base + headerSize) info.metadataBytes)) w := by
    intro info h
    rw [decodeAuto_accepted hrequire h, decodeTree_offline h]
  constructor
  · rintro ⟨honly, -⟩ info manifest h hparse hescape
    obtain ⟨e, he, hnot⟩ := (decodeOffline_escapes hjson (h.data_le.trans h.total_le) _).mpr
      ⟨manifest, hparse, hescape⟩
    exact hnot (honly e w ((hauto info h).trans (fromExcept_eq_error.mpr ⟨he, rfl⟩)))
  · intro hnone
    have honly : ∀ e w', decodeAuto R arg none w = .error e w' → e.IsFormatError := by
      intro e w' h
      cases hheader : parseHeader arg w with
      | error e' w₁ =>
        rw [decodeAuto, bind_error hheader] at h
        cases h
        exact parseHeader_error hrequire hheader
      | ok p w₁ =>
        obtain ⟨hb, haccepted, -⟩ := parseHeader_eq_ok.mp hheader
        cases hrequire.symm.trans hb
        rw [hauto p.2 haccepted] at h
        obtain ⟨herror, -⟩ := fromExcept_eq_error.mp h
        by_contra hnot
        obtain ⟨manifest, hparse, hescape⟩ := (decodeOffline_escapes hjson
          (haccepted.data_le.trans haccepted.total_le) _).mp ⟨e, herror, hnot⟩
        exact hnone p.2 manifest haccepted hparse hescape
    refine ⟨honly, fun cls hcls e w' h => ?_⟩
    obtain h | h := decodeChecked_error hcls h
    · exact (honly e w' h).isReported
    · exact h

end Decoder

section Samples

/-- A container of `text` and eight bytes of data. -/
def errorWorld (text : String) : World Unit := sampleWorld text 8 fun _ => 255

/-- A third reference, to bytes behind the DATA section. -/
def outsideDocument : Json := .dict [("x", sampleBin 0), ("y", sampleBlob), ("z", sampleBin 8)]

def outsideText : String :=
  "\x7b\"x\":" ++ sampleBinText "0" ++ ",\"y\":" ++ sampleBlobText ++
    ",\"z\":" ++ sampleBinText "8" ++ "\x7d"

def outsideRuntime : Runtime := .ofDocument outsideDocument outsideText 4096

theorem length_outsideText : (asciiBytes outsideText).length = 253 := by
  unfold outsideText sampleBinText sampleBlobText
  rw [asciiBytes_length]
  repeat rw [String.length_append]
  decide +kernel

theorem outside_length : headerSize + (asciiBytes outsideText).length ≤ 65536 := by
  rw [length_outsideText]
  decide

theorem restore_outside {info : BinaryInfo}
    (haccepted : Accepted (errorWorld outsideText).mem sampleBuffer info) :
    Tree.bindM (restoreOffline outsideRuntime sampleBuffer info.dataStart info.dataBytes)
      (references outsideDocument) =
        .error (.formatError "ndarray reference exceeds the DATA section") := by
  have hsample := (sample_accepted (d := 8) (fun _ => 255) outside_length (by decide)).1
  have hinfo : info = sampleInfo (asciiBytes outsideText).length 8 := Except.ok.inj
    ((parseHeaderIn_eq_ok.mpr haccepted).symm.trans (parseHeaderIn_eq_ok.mpr hsample))
  rw [hinfo]
  rfl

/-- It is reported, and nothing else is raised. -/
theorem decode_reports_iff_outside :
    decodeAuto outsideRuntime (.array sampleBuffer.toArray false) none (errorWorld outsideText) =
      .error (.formatError "ndarray reference exceeds the DATA section")
        (errorWorld outsideText) ∧
    (∀ e w', decodeAuto outsideRuntime (.array sampleBuffer.toArray false) none
      (errorWorld outsideText) = .error e w' → e.IsFormatError) ∧
    ∀ cls, (∃ identity, schemaIdentity cls = .ok identity) →
      ∀ e w', decodeChecked outsideRuntime cls (.array sampleBuffer.toArray false) none
        (errorWorld outsideText) = .error e w' → e.IsReported := by
  constructor
  · rw [outsideRuntime, errorWorld, decodeAuto_sample _ outside_length (by decide)]
    rfl
  refine (decode_reports_iff (fun bs => Runtime.ofDocument_fromJson.2)
    (requireBinaryArray_toArray sampleBuffer false) _).mpr ?_
  intro info manifest haccepted hparse
  rw [Runtime.ofDocument_fromJson.1 manifest hparse]
  have hchecks := Tree.describes_bindM (references outsideDocument) fun r =>
    describes_restoreOffline (R := outsideRuntime) (haccepted.data_le.trans haccepted.total_le) r
  intro hescapes
  obtain ⟨e, he, hnot⟩ := hchecks.raises.mpr hescapes
  rw [restore_outside haccepted] at he
  cases he
  exact hnot trivial

/-- A reference whose offset is infinite, and nothing else. -/
def infiniteManifest : Json :=
  .dict [("x", .dict [("$bin", .dict [
    ("kind", .leaf (.str "ndarray")), ("offset", .leaf (.float (.inf false)))])])]

def infiniteText : String :=
  "\x7b\"x\":\x7b\"$bin\":\x7b\"kind\":\"ndarray\",\"offset\":Infinity\x7d\x7d\x7d"

/-- `OverflowError` escapes from a container with a well-formed header. -/
theorem infinite_offset_escapes :
    (∀ bs e, (Runtime.ofDocument infiniteManifest infiniteText 4096).fromJson bs = .error e →
      e.isValueError = true) ∧
    decodeAuto (.ofDocument infiniteManifest infiniteText 4096)
        (.array sampleBuffer.toArray false) none (errorWorld infiniteText) =
      .error (.overflowError "cannot convert float infinity to integer")
        (errorWorld infiniteText) := by
  refine ⟨fun bs => Runtime.ofDocument_fromJson.2, ?_⟩
  rw [errorWorld, decodeAuto_sample _ (by decide) (by decide)]
  rfl

end Samples
end Npb
