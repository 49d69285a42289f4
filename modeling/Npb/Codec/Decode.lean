import Npb.Codec.Model

/-! # The decoders

`_restore_tree`, `_decode_tree`, `decode_auto` and `decode`. `restoreBin` and `restoreBlob` are the
two reference branches of `_restore_tree`. -/

namespace Npb
set_option autoImplicit false
open Effects Numpy

variable {σ : Type}

/-! ## References -/

/-- The converted fields of an inline reference. -/
structure BinRef where
  relOffset : ℤ
  nbytes : ℤ
  dtype : NpDtype
  shape : List ℤ

/-- The conversions the `$bin` branch makes in its `try`. -/
def convertBin (R : Runtime) (ref : List (String × Json)) : Except PyError BinRef := do
  let relOffset ← pyInt R.intOfStr (← pyItem ref "offset")
  let nbytes ← pyInt R.intOfStr (← pyItem ref "nbytes")
  let dtype ← R.dtype (← pyItem ref "dtype")
  let shape ← (← pyIter (← pyItem ref "shape")).mapM (pyInt R.intOfStr)
  return ⟨relOffset, nbytes, dtype, shape⟩

/-- The checks of the `$bin` branch, and the view it returns. -/
def viewBin (binary : Buffer) (dataStart dataBytes : ℕ) (ref : BinRef) :
    Except PyError NdArray := do
  raiseIf (ref.dtype.hasobject || ref.dtype.hasfields)
    (.formatError "unsupported ndarray dtype in binary reference")
  raiseIf (ref.relOffset < 0 ∨ ref.nbytes < 0)
    (.formatError "negative ndarray offset or size")
  raiseIf (ref.shape.any (· < 0)) (.formatError "negative ndarray dimension")
  raiseIf (ref.dtype.itemsize = 0 ∨ ref.nbytes % ref.dtype.itemsize ≠ 0)
    (.formatError "invalid ndarray byte size")
  let expectedItems := ref.shape.prod
  raiseIf (expectedItems * ref.dtype.itemsize ≠ ref.nbytes)
    (.formatError "ndarray shape does not match its byte size")
  let relEnd := ref.relOffset + ref.nbytes
  raiseIf ((dataBytes : ℤ) < relEnd)
    (.formatError "ndarray reference exceeds the DATA section")
  let absoluteOffset := dataStart + ref.relOffset
  let absoluteEnd := absoluteOffset + ref.nbytes
  raiseIf ((binary.size : ℤ) < absoluteEnd)
    (.formatError "ndarray reference exceeds the encoded array")
  let flat ← frombuffer binary ref.dtype expectedItems absoluteOffset
  reshape flat ref.shape

/-- The `$bin` branch on a mapping whose kind is `"ndarray"`: a view into the container. -/
def restoreBin (R : Runtime) (binary : Buffer) (dataStart dataBytes : ℕ)
    (ref : List (String × Json)) : Except PyError NdArray := do
  let r ← catching PyError.isLookupOrConversionError (.formatError "invalid ndarray reference")
    (convertBin R ref)
  viewBin binary dataStart dataBytes r

/-- The `$blob` branch: the reference itself, or what the store resolves it to. -/
def restoreBlob (R : Runtime) (blobStore : Option (BlobStore σ)) (value : Json) : Py σ Leaf := do
  let ref ← fromExcept (catching PyError.isTypeOrValueError
    (.formatError "invalid external blob reference") (BlobRef.fromManifest R value))
  match blobStore with
  | none => return .blobRef ref
  | some store =>
    fromExcept (raiseIf (store.kind ≠ ref.store)
      (.formatError (s!"blob reference requires store {pyRepr ref.store}, " ++
        s!"but decoder received {pyRepr store.kind}")))
    let a ← store.getArray ref
    return .ndarray a

/-- The reference under `$bin`, when `_restore_tree` takes the mapping for an inline array. -/
def binReference (kvs : List (String × Json)) : Option (List (String × Json)) :=
  match Tree.soleValue "$bin" kvs with
  | some (.dict ref) =>
    match ref.lookup "kind" with
    | some (.leaf (.str kind)) => if kind = "ndarray" then some ref else none
    | _ => none
  | _ => none

/-! ## Restoring a manifest -/

section Restore
variable (R : Runtime) (binary : Buffer) (dataStart dataBytes : ℕ)
  (blobStore : Option (BlobStore σ))

mutual
def restoreTree : Json → Py σ (Tree Leaf)
  | .dict kvs =>
    match Tree.soleValue "$blob" kvs with
    | some value => do
      let l ← restoreBlob R blobStore value
      return .leaf l
    | none =>
      match binReference kvs with
      | some ref => do
        let a ← fromExcept (restoreBin R binary dataStart dataBytes ref)
        return .leaf (.ndarray a)
      | none => do
        let items ← restoreItems kvs
        return .dict items
  | .list xs => do
    let ys ← restoreList xs
    return .list ys
  | .leaf s => return .leaf (.scalar s)

def restoreList : List Json → Py σ (List (Tree Leaf))
  | [] => return []
  | x :: xs => do
    let y ← restoreTree x
    let ys ← restoreList xs
    return y :: ys

def restoreItems : List (String × Json) → Py σ (List (String × Tree Leaf))
  | [] => return []
  | (k, v) :: kvs => do
    let y ← restoreTree v
    let items ← restoreItems kvs
    return (k, y) :: items
end

end Restore

/-- `except ValueError` around `from_json`. -/
def parseMetadata (R : Runtime) (metadataJson : List UInt8) : Except PyError Json :=
  catching PyError.isValueError (.formatError "invalid JSON metadata") (R.fromJson metadataJson)

/-- `if not isinstance(tree, dict)`. -/
def topLevel : Tree Leaf → Except PyError (List (String × Tree Leaf))
  | .dict kvs => .ok kvs
  | _ => .error (.formatError "top-level NPB value must be an object")

def decodeTree (R : Runtime) (binary : Buffer) (info : BinaryInfo)
    (blobStore : Option (BlobStore σ)) : Py σ (List (String × Tree Leaf)) := do
  let w ← get
  -- the slice stops at the end of the buffer
  let metadataJson := ((binary.bytes w.mem).drop headerSize).take info.metadataBytes
  let manifest ← fromExcept (parseMetadata R metadataJson)
  let tree ← restoreTree R binary info.dataStart info.dataBytes blobStore manifest
  fromExcept (topLevel tree)

def decodeAuto (R : Runtime) (binary : Argument) (blobStore : Option (BlobStore σ)) :
    Py σ (List (String × Tree Leaf)) := do
  let (binary, info) ← parseHeader binary
  decodeTree R binary info blobStore

mutual
def containsUnresolvedBlobRef : Tree Leaf → Bool
  | .leaf (.blobRef _) => true
  | .leaf _ => false
  | .dict kvs => anyUnresolvedItem kvs
  | .list xs => anyUnresolved xs

def anyUnresolved : List (Tree Leaf) → Bool
  | [] => false
  | x :: xs => containsUnresolvedBlobRef x || anyUnresolved xs

def anyUnresolvedItem : List (String × Tree Leaf) → Bool
  | [] => false
  | (_, v) :: kvs => containsUnresolvedBlobRef v || anyUnresolvedItem kvs
end

/-- `decode` up to the tree it hands to `model_validate`. -/
def decodeChecked (R : Runtime) (cls : ModelClass) (binary : Argument)
    (blobStore : Option (BlobStore σ)) : Py σ (List (String × Tree Leaf)) := do
  let (expectedId, expectedVersion) ← fromExcept (schemaIdentity cls)
  let (binary, info) ← parseHeader binary
  fromExcept (raiseIf (info.schemaId ≠ expectedId) (.schemaMismatchError
    s!"schema UUID mismatch: binary={info.schemaId.str}, class={expectedId.str}"))
  fromExcept (raiseIf (info.schemaVersion ≠ expectedVersion)
    (.schemaMismatchError (s!"schema version mismatch: " ++
      s!"binary={info.schemaVersion}, class={expectedVersion}")))
  let tree ← decodeTree R binary info blobStore
  fromExcept (raiseIf (containsUnresolvedBlobRef (.dict tree))
    (.blobStoreRequiredError ("this NPB message contains external blob references; " ++
      "pass the matching blob_store=... to decode()")))
  return tree

/-- `decode`, with the class's `model_validate`. -/
def decode {α : Type} (R : Runtime) (cls : ModelClass)
    (modelValidate : List (String × Tree Leaf) → Py σ α) (binary : Argument)
    (blobStore : Option (BlobStore σ)) : Py σ α := do
  let tree ← decodeChecked R cls binary blobStore
  modelValidate tree

end Npb
