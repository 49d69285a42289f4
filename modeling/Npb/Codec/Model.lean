import Npb.Codec.Format

/-! # Models, references and stores

What the codec is given: a Pydantic model as its class identity and dumped fields, external blob
references, the blob store interface, and the library functions the codec calls. -/

namespace Npb
set_option autoImplicit false
open Effects Numpy

/-- The functions of Python's runtime, NumPy and pydantic-core that the codec calls: `int` of a
string, `str` of a JSON value, `np.dtype`, the allocator behind `np.empty` (it sees which addresses
are taken), `to_json` with its fallback, and `from_json`. -/
structure Runtime where
  intOfStr : String → Option ℤ
  strOf : Json → Option String
  dtype : Json → Except PyError NpDtype
  alloc : (ℤ → Bool) → ℕ → Option ℤ
  toJson : (Scalar → Except PyError Scalar) → Json → Except PyError (List UInt8)
  fromJson : List UInt8 → Except PyError Json

/-! ## External references -/

structure BlobRef where
  store : String
  objectId : String
  offset : ℤ
  nbytes : ℤ
  dtype : String
  shape : List ℤ
  deriving DecidableEq

namespace BlobRef

def toManifest (ref : BlobRef) : Json :=
  .dict [
    ("store", .leaf (.str ref.store)),
    ("id", .leaf (.str ref.objectId)),
    ("offset", .leaf (.int ref.offset)),
    ("nbytes", .leaf (.int ref.nbytes)),
    ("dtype", .leaf (.str ref.dtype)),
    ("shape", .list (ref.shape.map fun d => .leaf (.int d)))]

/-- The conversions of `from_manifest`, before its checks. -/
def convert (R : Runtime) (value : List (String × Json)) : Except PyError BlobRef := do
  let store ← pyStr R.strOf (← pyItem value "store")
  let objectId ← pyStr R.strOf (← pyItem value "id")
  let offset ← pyInt R.intOfStr (← pyItem value "offset")
  let nbytes ← pyInt R.intOfStr (← pyItem value "nbytes")
  let dtype ← pyStr R.strOf (← pyItem value "dtype")
  let shape ← (← pyIter (← pyItem value "shape")).mapM (pyInt R.intOfStr)
  return ⟨store, objectId, offset, nbytes, dtype, shape⟩

/-- The checks of `from_manifest` on a converted reference. -/
def check (R : Runtime) (ref : BlobRef) : Except PyError BlobRef := do
  raiseIf (ref.store = "") (.valueError "blob store name cannot be empty")
  raiseIf (ref.objectId = "") (.valueError "blob object id cannot be empty")
  raiseIf (ref.offset < 0 ∨ ref.nbytes < 0)
    (.valueError "blob offset and size must be non-negative")
  raiseIf (ref.shape.any (· < 0))
    (.valueError "blob ndarray shape cannot contain negative dimensions")
  let npDtype ← R.dtype (.leaf (.str ref.dtype))
  raiseIf (npDtype.hasobject || npDtype.hasfields)
    (.valueError "unsupported dtype in blob reference")
  let expected := npDtype.itemsize * ref.shape.prod
  raiseIf (expected ≠ ref.nbytes) (.valueError "blob ndarray shape does not match nbytes")
  return ref

def fromManifest (R : Runtime) : Json → Except PyError BlobRef
  | .dict value => do
    let ref ← catching PyError.isLookupOrConversionError (.typeError "invalid blob reference")
      (convert R value)
    check R ref
  | _ => .error (.typeError "blob reference must be an object")

end BlobRef

/-! ## Values and models -/

inductive Leaf where
  | scalar (s : Scalar)
  | ndarray (a : NdArray)
  | blobRef (ref : BlobRef)

/-- What `model_dump(mode="python")` builds. -/
inductive Value where
  | leaf (l : Leaf)
  | list (xs : List Value)
  | tuple (xs : List Value)
  | dict (kvs : List (String × Value))

/-- `class BlobStore(Protocol)`: the part of it the codec uses. -/
structure BlobStore (σ : Type) where
  kind : String
  putArray : NdArray → Py σ BlobRef
  getArray : BlobRef → Py σ NdArray

/-- A Pydantic class with the attributes `@binary_schema` sets. -/
structure ModelClass where
  name : String
  schemaId : Option UUID
  schemaVersion : Option ℤ

structure Model where
  cls : ModelClass
  fields : List (String × Value)

def Model.modelDump (m : Model) : Value := .dict m.fields

def schemaIdentity (cls : ModelClass) : Except PyError (UUID × ℕ) :=
  match cls.schemaId, cls.schemaVersion with
  | some schemaId, some schemaVersion =>
    if schemaVersion < 0 then
      .error (.typeError "__binary_schema_version__ must be non-negative")
    else .ok (schemaId, schemaVersion.toNat)
  | _, _ =>
    .error (.typeError (s!"{cls.name} has no binary schema identity; " ++
      "decorate the top-level model with @binary_schema(...)"))

/-! ## Dumped values as trees -/

namespace Value

mutual
/-- The dumped value with tuples turned into lists. -/
def listed : Value → Tree Leaf
  | .leaf l => .leaf l
  | .list xs => .list (listedAll xs)
  | .tuple xs => .list (listedAll xs)
  | .dict kvs => .dict (listedItems kvs)

def listedAll : List Value → List (Tree Leaf)
  | [] => []
  | x :: xs => listed x :: listedAll xs

def listedItems : List (String × Value) → List (String × Tree Leaf)
  | [] => []
  | (k, v) :: kvs => (k, listed v) :: listedItems kvs
end

end Value

def Model.tree (m : Model) : Tree Leaf := m.modelDump.listed

def Leaf.array? : Leaf → Option NdArray
  | .ndarray a => some a
  | _ => none

/-- The ndarray leaves of a tree, in document order. -/
def arraysOf (t : Tree Leaf) : List NdArray := t.leaves.filterMap Leaf.array?

theorem mem_arraysOf {t : Tree Leaf} {a : NdArray} :
    a ∈ arraysOf t ↔ Leaf.ndarray a ∈ t.leaves := by
  rw [arraysOf, List.mem_filterMap]
  constructor
  · rintro ⟨l, hl, h⟩
    cases l <;> cases h
    exact hl
  · intro h
    exact ⟨_, h, rfl⟩

/-! ## A runtime for one document -/

def float64 : DType := ⟨"<f8", 8, false, false⟩

/-- The runtime as far as one JSON document and the common dtypes go: `text` is the document
serialized, and `np.empty` hands out memory from address `free` on. -/
def Runtime.ofDocument (document : Json) (text : String) (free : ℤ) : Runtime where
  intOfStr _ := none
  strOf _ := none
  dtype
    | .leaf (.str "<f8") => .ok (.plain float64)
    | .leaf (.str "|u1") => .ok (.plain uint8)
    | .leaf (.str "|V0") => .ok (.plain ⟨"|V0", 0, false, false⟩)
    | _ => .error (.typeError "data type not understood")
  alloc _ _ := some free
  toJson _ _ := .ok (asciiBytes text)
  fromJson bs :=
    if bs = asciiBytes text then .ok document else .error (.valueError "expected value")

theorem Runtime.fromJson_ofDocument (document : Json) (text : String) (free : ℤ) :
    (ofDocument document text free).fromJson (asciiBytes text) = .ok document :=
  if_pos rfl

theorem Runtime.ofDocument_fromJson {document : Json} {text : String} {free : ℤ}
    {bs : List UInt8} : (∀ j, (ofDocument document text free).fromJson bs = .ok j → j = document) ∧
      ∀ e, (ofDocument document text free).fromJson bs = .error e → e.isValueError = true := by
  unfold ofDocument
  dsimp only
  split
  · constructor
    · intro j h
      cases h
      rfl
    · intro e h
      cases h
  · constructor
    · intro j h
      cases h
    · intro e h
      cases h
      rfl

/-! ## References survive their manifest form -/

theorem BlobRef.convert_toManifest (R : Runtime) (ref : BlobRef) :
    ∃ kvs, ref.toManifest = .dict kvs ∧ convert R kvs = .ok ref := by
  refine ⟨_, rfl, ?_⟩
  have hshape := mapM_pyInt R.intOfStr ref.shape
  simp [convert, pyItem, List.lookup_cons, bind, Except.bind, pure, Except.pure, hshape]

theorem BlobRef.fromManifest_toManifest (R : Runtime) (ref : BlobRef) :
    fromManifest R ref.toManifest = check R ref := by
  obtain ⟨kvs, hkvs, hconvert⟩ := convert_toManifest R ref
  rw [hkvs, fromManifest, hconvert]
  rfl

theorem BlobRef.check_of_fromManifest {R : Runtime} {j : Json} {ref : BlobRef}
    (h : fromManifest R j = .ok ref) : check R ref = .ok ref := by
  cases j with
  | leaf s => cases h
  | list xs => cases h
  | dict kvs =>
    obtain ⟨ref', -, hcheck⟩ := except_bind_eq_ok.mp h
    have hsame : ref' = ref := by
      unfold check at hcheck
      rw [raiseIf_bind_eq_ok, raiseIf_bind_eq_ok, raiseIf_bind_eq_ok, raiseIf_bind_eq_ok] at hcheck
      obtain ⟨dtype, -, hrest⟩ := except_bind_eq_ok.mp hcheck.2.2.2.2
      rw [raiseIf_bind_eq_ok, raiseIf_bind_eq_ok] at hrest
      exact Except.ok.inj hrest.2.2
    rwa [hsame] at hcheck

end Npb
