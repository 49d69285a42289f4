import Npb.Codec.Decode
import Npb.Codec.Encode

/-! # The Vineyard store

`VineyardStore` over a client it is given. The arrays it has resolved are kept in a table, so that
putting one of them again returns its reference without a copy. -/

namespace Npb.Vineyard
set_option autoImplicit false
open Effects Numpy

/-- The IPC client of the `vineyard` package, with its `ObjectID`s `O` and its state `C`. The array
`put` is given is its content: the client copies it. -/
structure Client (O C : Type) where
  objectID : String → Except PyError O
  repr : O → String
  put : NdArray.Content → Bool → Py C O
  get : O → Py C Argument
  exists_ : O → Py C Bool
  persist : O → Py C Unit
  releaseObject : O → Py C Unit
  delete : O → Py C Unit

/-- The type of `_key(array)`. -/
abbrev Key := ℤ × ℕ × String × List ℕ

/-- What a `VineyardStore` changes: its client and the dictionary `_resolved_refs`. -/
structure State (C : Type) where
  client : C
  resolvedRefs : Key → Option BlobRef

structure VineyardStore (O C : Type) where
  client : Client O C
  persistOnPut : Bool

variable {O C α : Type}

def kind : String := "vineyard"

/-- `VineyardStore(client, persist_on_put=..., copy_concurrency=...)`. -/
def init (client : Client O C) (isIpc persistOnPut : Bool) (copyConcurrency : ℤ) :
    Except PyError (VineyardStore O C) := do
  raiseIf (isIpc = false) (.valueError ("VineyardStore requires a local IPC client; RPC clients " ++
    "cannot provide same-host zero-copy ndarray access"))
  raiseIf (copyConcurrency ≤ 0) (.valueError "copy_concurrency must be > 0")
  return ⟨client, persistOnPut⟩

/-- `_resolved_refs` as a new store has it. -/
def State.new (client : C) : State C := ⟨client, fun _ => none⟩

/-- The two checks are those of `_validate_ndarray`. -/
def validateArray (array : NdArray) : Except PyError Unit := validateNdarray array

def key (array : NdArray) : Key := (array.data, array.nbytes, array.dtype.str, array.shape)

/-! ## Calls of the client -/

/-- The world the client sees. -/
def clientWorld (w : World (State C)) : World C := ⟨w.mem, w.live, w.store.client⟩

/-- The world after a call of the client has ended in `v`. -/
def withClient (w : World (State C)) (v : World C) : World (State C) :=
  ⟨v.mem, v.live, { w.store with client := v.store }⟩

def inClient (x : Py C α) : Py (State C) α := fun w =>
  match x (clientWorld w) with
  | .ok a v => .ok a (withClient w v)
  | .error e v => .error e (withClient w v)

theorem inClient_ok {x : Py C α} {w : World (State C)} {a : α} {v : World C}
    (h : x (clientWorld w) = .ok a v) : inClient x w = .ok a (withClient w v) := by
  rw [inClient, h]

theorem inClient_error {x : Py C α} {w : World (State C)} {e : PyError} {v : World C}
    (h : x (clientWorld w) = .error e v) : inClient x w = .error e (withClient w v) := by
  rw [inClient, h]

theorem inClient_eq_ok {x : Py C α} {w w' : World (State C)} {a : α} :
    inClient x w = .ok a w' ↔ ∃ v, x (clientWorld w) = .ok a v ∧ w' = withClient w v := by
  unfold inClient
  cases x (clientWorld w) with
  | ok a' v =>
    constructor
    · intro h
      cases h
      exact ⟨v, rfl, rfl⟩
    · rintro ⟨v', h, rfl⟩
      cases h
      rfl
  | error e v =>
    constructor
    · intro h
      cases h
    · rintro ⟨v', h, -⟩
      cases h

theorem finalState_inClient (x : Py C α) (w : World (State C)) :
    finalState (inClient x w) = withClient w (finalState (x (clientWorld w))) := by
  unfold inClient
  cases x (clientWorld w) <;> rfl

/-! ## Putting an array -/

/-- What `np.ascontiguousarray` makes of an array: at least one axis, elements in C order. -/
def ascontiguousContent (m : Mem) (array : NdArray) : NdArray.Content :=
  ⟨array.dtype, if array.shape = [] then [1] else array.shape, array.tobytes m⟩

section Methods
variable (V : VineyardStore O C) (R : Runtime)

def refForObject (objectId : O) (array : NdArray.Content) (offset : ℤ) : BlobRef where
  store := "vineyard"
  objectId := V.client.repr objectId
  offset := offset
  nbytes := array.bytes.length
  dtype := array.dtype.str
  shape := array.shape.map fun d : ℕ => (d : ℤ)

def registerResolved (array : NdArray) (ref : BlobRef) : Py (State C) Unit :=
  modify fun w => { w with store := { w.store with
    resolvedRefs := Function.update w.store.resolvedRefs (key array) (some ref) } }

def tryReuseResolved (array : NdArray) : Py (State C) (Option BlobRef) := do
  let w ← get
  return w.store.resolvedRefs (key array)

def putArray (array : NdArray) : Py (State C) BlobRef := do
  fromExcept (validateArray array)
  let existing ← tryReuseResolved array
  match existing with
  | some existing => return existing
  | none =>
    let w ← get
    let arr := ascontiguousContent w.mem array
    let objectId ← inClient (V.client.put arr V.persistOnPut)
    return refForObject V objectId arr 0

/-! ## Getting an array -/

/-- `value.view(np.uint8).reshape(-1)` of a C-contiguous array. -/
def byteView (value : NdArray) : Except PyError Buffer :=
  if value.dtype.hasobject then
    .error (.typeError "Cannot change data-type for array of references.")
  else if value.shape = [] ∧ value.dtype.itemsize ≠ 1 then
    .error (.valueError
      "Changing the dtype of a 0d array is only supported if the itemsize is unchanged")
  else .ok ⟨value.data, value.nbytes, value.nbytes_lt⟩

/-- `get_array` from the object the client returns to the view of it. -/
def viewObject (ref : BlobRef) : Argument → Except PyError NdArray
  | .notArray => .error (.blobStoreError
      "Vineyard object referenced by NPB did not resolve to numpy.ndarray")
  | .array value _ => do
    raiseIf (value.isCContiguous = false)
      (.blobStoreError "Vineyard ndarray backing object is unexpectedly non-contiguous")
    let rawNbytes := value.nbytes
    raiseIf (ref.offset < 0 ∨ (rawNbytes : ℤ) < ref.offset + ref.nbytes)
      (.blobStoreError "blob reference exceeds Vineyard ndarray size")
    let dtype ← R.dtype (.leaf (.str ref.dtype))
    raiseIf (dtype.itemsize = 0)
      (.zeroDivisionError "integer division or modulo by zero")
    let count := ref.nbytes / dtype.itemsize
    if ref.offset = 0 ∧ ref.nbytes = rawNbytes ∧ .plain value.dtype = dtype then
      reshape value ref.shape
    else
      let bytes ← byteView value
      let flat ← frombuffer bytes dtype count ref.offset
      reshape flat ref.shape

def getArray (ref : BlobRef) : Py (State C) NdArray := do
  fromExcept (raiseIf (ref.store ≠ kind)
    (.blobStoreError s!"reference requires store {pyRepr ref.store}, not {pyRepr kind}"))
  let objectId ← fromExcept (V.client.objectID ref.objectId)
  let value ← inClient (V.client.get objectId)
  let array ← fromExcept (viewObject R ref value)
  registerResolved array ref
  return array

/-! ## Operations on the object of a reference -/

/-- A call of the client on the object that a reference names. -/
def onObject (call : O → Py C α) (ref : BlobRef) : Py (State C) α := do
  let objectId ← fromExcept (V.client.objectID ref.objectId)
  inClient (call objectId)

def exists_ (ref : BlobRef) : Py (State C) Bool := onObject V V.client.exists_ ref

def persist (ref : BlobRef) : Py (State C) Unit := onObject V V.client.persist ref

def release (ref : BlobRef) : Py (State C) Unit := onObject V V.client.releaseObject ref

def delete (ref : BlobRef) : Py (State C) Unit := onObject V V.client.delete ref

/-- The store as the codec sees it. -/
def blobStore : BlobStore (State C) where
  kind := kind
  putArray := putArray V
  getArray := getArray V R

end Methods
end Npb.Vineyard
