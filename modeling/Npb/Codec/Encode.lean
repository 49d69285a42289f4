import Npb.Codec.Model

/-! # The encoder

`_manifest_tree`, `_prepare_output`, `_analyze_model`, `encoded_size` and `encode`. The traversal
mutates the list `arrays` and the one-element list `cursor` of its caller; both are part of the
state it runs in (`Scan`). -/

namespace Npb
set_option autoImplicit false
open Effects Numpy

variable {σ : Type}

def validateNdarray (arr : NdArray) : Except PyError Unit :=
  if arr.dtype.hasobject then .error (.typeError "NumPy object dtypes are not supported")
  else if arr.dtype.hasfields then
    .error (.typeError "NumPy structured dtypes are not supported")
  else .ok ()

/-! ## Building the manifest -/

/-- The world together with the lists `_manifest_tree` appends to. -/
structure Scan (σ : Type) where
  world : World σ
  arrays : List (ℕ × NdArray)
  cursor : ℕ

/-- A call made during the traversal. -/
def inWorld {α : Type} (x : Py σ α) : EStateM PyError (Scan σ) α := fun s =>
  match x s.world with
  | .ok a w => .ok a { s with world := w }
  | .error e w => .error e { s with world := w }

/-- The store that is to take an array, if `should_externalize` holds. -/
def externalStore (blobStore : Option (BlobStore σ)) (externalizeMinBytes : Option ℤ)
    (node : NdArray) : Option (BlobStore σ) :=
  match blobStore, externalizeMinBytes with
  | some store, some threshold => if threshold ≤ node.nbytes then some store else none
  | _, _ => none

/-- The inline reference of an array placed at `relOffset`. -/
def binManifest (relOffset : ℕ) (node : NdArray) : Json :=
  .dict [("$bin", .dict [
    ("kind", .leaf (.str "ndarray")),
    ("offset", .leaf (.int relOffset)),
    ("nbytes", .leaf (.int node.nbytes)),
    ("dtype", .leaf (.str node.dtype.str)),
    ("shape", .list (node.shape.map fun d : ℕ => .leaf (.int d)))])]

/-- The external reference of a blob. -/
def blobManifest (ref : BlobRef) : Json := .dict [("$blob", ref.toManifest)]

section ManifestTree
variable (blobStore : Option (BlobStore σ)) (externalizeMinBytes : Option ℤ)

def manifestLeaf : Leaf → EStateM PyError (Scan σ) Json
  | .ndarray node => do
    fromExcept (validateNdarray node)
    match externalStore blobStore externalizeMinBytes node with
    | some store =>
      let ref ← inWorld (store.putArray node)
      return blobManifest ref
    | none =>
      let s ← get
      let relOffset := alignUp s.cursor arrayAlignment
      set { s with
        arrays := s.arrays ++ [(relOffset, node)]
        cursor := relOffset + node.nbytes }
      return binManifest relOffset node
  | .blobRef node => return blobManifest node
  | .scalar node => return .leaf node

mutual
def manifestTree : Value → EStateM PyError (Scan σ) Json
  | .leaf l => manifestLeaf blobStore externalizeMinBytes l
  | .dict kvs => do
    let items ← manifestItems kvs
    return .dict items
  | .list xs => do
    let ys ← manifestList xs
    return .list ys
  | .tuple xs => do
    let ys ← manifestList xs
    return .list ys

def manifestList : List Value → EStateM PyError (Scan σ) (List Json)
  | [] => return []
  | x :: xs => do
    let y ← manifestTree x
    let ys ← manifestList xs
    return y :: ys

def manifestItems : List (String × Value) → EStateM PyError (Scan σ) (List (String × Json))
  | [] => return []
  | (k, v) :: kvs => do
    let y ← manifestTree v
    let items ← manifestItems kvs
    return (k, y) :: items
end

end ManifestTree

def jsonFallback : Scalar → Except PyError Scalar
  | .generic item => .ok item
  | .other typeName => .error (.typeError s!"value is not JSON serializable: {typeName}")
  | _ => .error (.typeError "value is not JSON serializable")

/-! ## Layout -/

structure Analysis where
  schemaId : UUID
  schemaVersion : ℕ
  dataBytes : ℕ
  dataStart : ℕ
  arrays : List (ℕ × NdArray)
  metadataJson : List UInt8

/-- The length of the container, as both `encoded_size` and `encode` compute it. -/
def Analysis.totalSize (a : Analysis) : ℕ :=
  alignUp (max (a.dataStart + a.dataBytes) frameSize) frameSize

/-- The argument checks of `_analyze_model`. -/
def checkThreshold (blobStore : Option (BlobStore σ)) :
    Option ℤ → Except PyError Unit
  | none => .ok ()
  | some externalizeMinBytes =>
    if externalizeMinBytes < 0 then
      .error (.valueError "externalize_min_bytes must be >= 0")
    else
      match blobStore with
      | none =>
        .error (.valueError "blob_store is required when externalize_min_bytes is provided")
      | some _ => .ok ()

/-- `_manifest_tree` on fresh `arrays` and `cursor` lists. -/
def buildManifest (blobStore : Option (BlobStore σ)) (externalizeMinBytes : Option ℤ)
    (tree : Value) : Py σ (Json × List (ℕ × NdArray) × ℕ) := fun w =>
  match manifestTree blobStore externalizeMinBytes tree ⟨w, [], 0⟩ with
  | .ok manifest s => .ok (manifest, s.arrays, s.cursor) s.world
  | .error e s => .error e s.world

def analyzeModel (R : Runtime) (model : Model) (blobStore : Option (BlobStore σ))
    (externalizeMinBytes : Option ℤ) : Py σ Analysis := do
  let (schemaId, schemaVersion) ← fromExcept (schemaIdentity model.cls)
  fromExcept (checkThreshold blobStore externalizeMinBytes)
  let (manifest, arrays, dataBytes) ←
    buildManifest blobStore externalizeMinBytes model.modelDump
  let metadataJson ← fromExcept (R.toJson jsonFallback manifest)
  return {
    schemaId := schemaId
    schemaVersion := schemaVersion
    dataBytes := dataBytes
    dataStart := alignUp (headerSize + metadataJson.length) frameSize
    arrays := arrays
    metadataJson := metadataJson }

def encodedSize (R : Runtime) (model : Model) (blobStore : Option (BlobStore σ))
    (externalizeMinBytes : Option ℤ) : Py σ ℕ := do
  let a ← analyzeModel R model blobStore externalizeMinBytes
  return a.totalSize

/-! ## Writing the container -/

/-- `f"{n:,}"`. -/
def thousands (n : ℕ) : String :=
  String.ofList (group (toString n).toList.reverse).reverse
where
  group : List Char → List Char
    | a :: b :: c :: d :: cs => a :: b :: c :: ',' :: group (d :: cs)
    | cs => cs

/-- The checks of `_prepare_output` on a caller-provided array, and its slice. -/
def checkOutput (totalSize : ℕ) (out : Argument) : Except PyError Buffer := do
  let r ← requireByteArray "out" out
  raiseIf (r.2 = false) (.valueError "out must be writable")
  raiseIf (r.1.size < totalSize)
    (.bufferTooSmallError (s!"output buffer too small: need {thousands totalSize} " ++
      s!"bytes, got {thousands r.1.size}"))
  return r.1.take totalSize

/-- The output buffer of `_prepare_output`, before its frame is zeroed. -/
def acquireOutput (R : Runtime) (totalSize : ℕ) : Option Argument → Py σ Buffer
  | none => empty R.alloc totalSize
  | some out => fromExcept (checkOutput totalSize out)

def prepareOutput (R : Runtime) (out : Option Argument) (totalSize dataStart : ℕ) :
    Py σ Buffer := do
  let binary ← acquireOutput R totalSize out
  zeroSlice binary 0 dataStart
  return binary

/-- The fields `HEADER.pack_into` receives. -/
def headerValues (a : Analysis) : Struct.Values headerFormat :=
  (magic, formatVersion, 0, frameSize, a.schemaId.bytes, a.schemaVersion, a.metadataJson.length,
    a.dataStart, a.dataBytes, a.totalSize, ())

def packHeader (a : Analysis) : Except PyError (List UInt8) :=
  match Struct.pack headerFormat (headerValues a) with
  | some header => .ok header
  | none => .error (.structError "argument out of range")

/-- `HEADER.pack_into`, one field after the other: those before one that is out of range stay in the
buffer. -/
def packInto (binary : Buffer) (a : Analysis) : Py σ Unit := do
  assignSlice binary 0 (Struct.packed headerFormat (headerValues a))
  let _ ← fromExcept (packHeader a)

/-- `binary[lo:hi] = 0`, skipped when the slice is empty: the alignment gap before an array, and
the frame padding after the last one. -/
def zeroGap (binary : Buffer) (lo hi : ℕ) : Py σ Unit :=
  if lo < hi then zeroSlice binary lo hi else return ()

/-- The loop over `arrays`. -/
def writeArrays (binary : Buffer) (dataStart : ℕ) : List (ℕ × NdArray) → ℕ → Py σ Unit
  | [], _ => return ()
  | (relOffset, sourceArr) :: arrays, previousEnd => do
    let arr ← ascontiguousarray sourceArr
    zeroGap binary (dataStart + previousEnd) (dataStart + relOffset)
    let w ← get
    assignSlice binary (dataStart + relOffset) (arr.tobytes w.mem)
    writeArrays binary dataStart arrays (relOffset + sourceArr.nbytes)

def encode (R : Runtime) (model : Model) (out : Option Argument)
    (blobStore : Option (BlobStore σ)) (externalizeMinBytes : Option ℤ) : Py σ Buffer := do
  let a ← analyzeModel R model blobStore externalizeMinBytes
  let binary ← prepareOutput R out a.totalSize a.dataStart
  packInto binary a
  assignSlice binary headerSize a.metadataJson
  writeArrays binary a.dataStart a.arrays 0
  zeroGap binary (a.dataStart + a.dataBytes) a.totalSize
  return binary

end Npb
