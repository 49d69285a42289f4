import Npb.Numpy.Arrays

/-! # Buffers, views and slice assignments

The NumPy calls the codec makes on its `uint8` container: views into it (`frombuffer`, `reshape`),
slice assignments, and `empty`, which hands out memory that holds whatever was there before. -/

namespace Npb.Numpy
set_option autoImplicit false
open Effects

/-- A one-dimensional C-contiguous `uint8` array. -/
structure Buffer where
  base : ℤ
  size : ℕ
  size_lt : size < 2 ^ 63
  deriving DecidableEq

namespace Buffer

def bytes (m : Mem) (b : Buffer) : List UInt8 := m.read b.base b.size

def Contains (b : Buffer) (x : ℤ) : Prop := b.base ≤ x ∧ x < b.base + b.size

instance (b : Buffer) (x : ℤ) : Decidable (b.Contains x) := inferInstanceAs (Decidable (_ ∧ _))

theorem shapeOk (b : Buffer) : ShapeOk uint8.itemsize [b.size] := by
  have h := b.size_lt
  refine ⟨by simp, by simpa using h, ?_⟩
  by_cases hz : 0 < b.size
  · simpa [hz, uint8] using h
  · simp [hz, uint8]

def toArray (b : Buffer) : NdArray := .cArray b.base uint8 [b.size] b.shapeOk

/-- `binary[:n]`. -/
def take (b : Buffer) (n : ℕ) : Buffer := ⟨b.base, min n b.size, by have := b.size_lt; omega⟩

@[simp] theorem take_base (b : Buffer) (n : ℕ) : (b.take n).base = b.base := rfl

theorem bytes_write (m : Mem) (b : Buffer) (bs : List UInt8) (h : bs.length = b.size) :
    b.bytes (m.write b.base bs) = bs := by
  rw [bytes, ← h, Mem.read_write_self]

end Buffer

/-- What a caller may pass where an array is expected. -/
inductive Argument where
  | notArray
  | array (a : NdArray) (writeable : Bool)

/-! ## Views -/

def mkArray (data : ℤ) (dtype : DType) (shape : List ℕ) : Except PyError NdArray :=
  if h : ShapeOk dtype.itemsize shape then .ok (.cArray data dtype shape h)
  else .error (.valueError "array is too big or has too many dimensions")

/-- `n` elements from an address on; an element that is a block adds its axes to the shape. -/
def elementsAt (data : ℤ) (dtype : NpDtype) (n : ℕ) : Except PyError NdArray :=
  match dtype with
  | .plain d => mkArray data d [n]
  | .subarray base shape => mkArray data base (n :: shape)

/-- `np.frombuffer(buffer, dtype=dtype, count=count, offset=offset)`. -/
def frombuffer (b : Buffer) (dtype : NpDtype) (count offset : ℤ) : Except PyError NdArray := do
  raiseIf dtype.hasobject (.valueError "cannot create an OBJECT array from memory buffer")
  raiseIf (dtype.itemsize = 0) (.valueError "itemsize cannot be zero in type")
  raiseIf (2 ^ 63 ≤ count.natAbs ∨ 2 ^ 63 ≤ offset.natAbs)
    (.overflowError "Python int too large to convert to C ssize_t")
  raiseIf (offset < 0 ∨ (b.size : ℤ) < offset)
    (.valueError "offset must be non-negative and no greater than buffer length")
  let s := b.size - offset.toNat
  raiseIf (count < 0 ∧ s % dtype.itemsize ≠ 0)
    (.valueError "buffer size must be a multiple of element size")
  let n := if count < 0 then s / dtype.itemsize else count.toNat
  raiseIf (s < n * dtype.itemsize) (.valueError "buffer is smaller than requested size")
  elementsAt (b.base + offset) dtype n

/-- The shape `reshape` settles on: at most one length may be left unknown (negative). -/
def resolveShape (size : ℕ) (shape : List ℤ) : Option (List ℕ) :=
  let known := ((shape.filter (0 ≤ ·)).map Int.toNat).prod
  match (shape.filter (· < 0)).length with
  | 0 => if known = size then some (shape.map Int.toNat) else none
  | 1 =>
    if known ≠ 0 ∧ size % known = 0 then
      some (shape.map fun d => if d < 0 then size / known else d.toNat)
    else none
  | _ => none

/-- `a.reshape(shape)` of a C-contiguous array: a view of the same memory. -/
def reshape (a : NdArray) (shape : List ℤ) : Except PyError NdArray :=
  match resolveShape a.size shape with
  | some dims => mkArray a.data a.dtype dims
  | none => .error (.valueError s!"cannot reshape array of size {a.size} into shape {shape}")

theorem mkArray_eq_ok {data : ℤ} {dtype : DType} {shape : List ℕ} {a : NdArray} :
    mkArray data dtype shape = .ok a ↔
      ∃ h : ShapeOk dtype.itemsize shape, a = .cArray data dtype shape h := by
  unfold mkArray
  split
  · next h => exact ⟨fun e => ⟨h, (Except.ok.inj e).symm⟩, fun ⟨_, e⟩ => by rw [e]⟩
  · next h =>
    constructor
    · intro e
      cases e
    · rintro ⟨h', -⟩
      exact absurd h' h

theorem mkArray_error {data : ℤ} {dtype : DType} {shape : List ℕ} {e : PyError}
    (h : mkArray data dtype shape = .error e) : ∃ message, e = .valueError message := by
  unfold mkArray at h
  split at h
  · cases h
  · cases h
    exact ⟨_, rfl⟩

theorem elementsAt_error {data : ℤ} {dtype : NpDtype} {n : ℕ} {e : PyError}
    (h : elementsAt data dtype n = .error e) : ∃ message, e = .valueError message := by
  cases dtype with
  | plain d => exact mkArray_error h
  | subarray base shape => exact mkArray_error h

theorem reshape_error {a : NdArray} {shape : List ℤ} {e : PyError}
    (h : reshape a shape = .error e) : ∃ message, e = .valueError message := by
  unfold reshape at h
  split at h
  · exact mkArray_error h
  · cases h
    exact ⟨_, rfl⟩

theorem frombuffer_run {b : Buffer} {dtype : NpDtype} {count offset : ℕ}
    (hobject : dtype.hasobject = false) (hitem : dtype.itemsize ≠ 0)
    (hroom : offset + count * dtype.itemsize ≤ b.size) :
    frombuffer b dtype count offset = elementsAt (b.base + offset) dtype count := by
  have hlt := b.size_lt
  have hneg : ¬ ((count : ℤ) < 0) := by omega
  have hcount : count ≤ count * dtype.itemsize :=
    Nat.le_mul_of_pos_right _ (Nat.pos_of_ne_zero hitem)
  unfold frombuffer
  rw [raiseIf_bind (by simp [hobject]), raiseIf_bind hitem, raiseIf_bind (by omega),
    raiseIf_bind (by omega), raiseIf_bind (by omega), raiseIf_bind (by
      rw [if_neg hneg, Int.toNat_natCast, Int.toNat_natCast]; omega)]
  rw [if_neg hneg, Int.toNat_natCast]

theorem resolveShape_nonneg (size : ℕ) (shape : List ℤ) (h : ∀ d ∈ shape, 0 ≤ d) :
    resolveShape size shape =
      if (shape.map Int.toNat).prod = size then some (shape.map Int.toNat) else none := by
  have hneg : shape.filter (· < 0) = [] :=
    List.filter_eq_nil_iff.mpr fun d hd => by simpa using h d hd
  have hpos : shape.filter (0 ≤ ·) = shape :=
    List.filter_eq_self.mpr fun d hd => by simpa using h d hd
  simp [resolveShape, hneg, hpos]

/-! ## Slice assignment -/

section Calls
variable {σ : Type}

/-- The result of `np.ascontiguousarray`: the array itself, or a copy made at once. -/
inductive Contiguous where
  | view (a : NdArray)
  | copy (bytes : List UInt8)

def ascontiguousarray (a : NdArray) : Py σ Contiguous := do
  let w ← get
  return if a.isCContiguous then .view a else .copy (a.tobytes w.mem)

/-- The raw bytes of a contiguous array as they are when it is read. -/
def Contiguous.tobytes (m : Mem) : Contiguous → List UInt8
  | .view a => a.tobytes m
  | .copy bs => bs

def writeMem (p : ℤ) (bs : List UInt8) : Py σ Unit :=
  modify fun w => { w with mem := w.mem.write p bs }

/-- `binary[lo:hi] = 0`. -/
def zeroSlice (b : Buffer) (lo hi : ℕ) : Py σ Unit :=
  writeMem (b.base + lo) (List.replicate (min hi b.size - lo) 0)

/-- `binary[lo : lo + len(bs)] = bs`; a slice cut short by the end of the buffer does not match. -/
def assignSlice (b : Buffer) (lo : ℕ) (bs : List UInt8) : Py σ Unit :=
  if lo + bs.length ≤ b.size then writeMem (b.base + lo) bs
  else throw (.valueError "could not broadcast input array")

/-- `np.empty(n, dtype=np.uint8)`: uninitialised memory where the allocator puts it. -/
def empty (alloc : (ℤ → Bool) → ℕ → Option ℤ) (n : ℕ) : Py σ Buffer := fun w =>
  if h : n < 2 ^ 63 then
    match alloc w.live n with
    | some p =>
      .ok ⟨p, n, h⟩ { w with live := fun x => w.live x || (decide (p ≤ x) && decide (x < p + n)) }
    | none => .error .memoryError w
  else .error (.valueError "Maximum allowed dimension exceeded") w

theorem empty_eq_ok {alloc : (ℤ → Bool) → ℕ → Option ℤ} {n : ℕ} {w w' : World σ} {b : Buffer} :
    empty alloc n w = .ok b w' ↔ ∃ p, ∃ h : n < 2 ^ 63, alloc w.live n = some p ∧ b = ⟨p, n, h⟩ ∧
      w' = { w with live := fun x => w.live x || (decide (p ≤ x) && decide (x < p + n)) } := by
  unfold empty
  by_cases h : n < 2 ^ 63
  · rw [dif_pos h]
    cases alloc w.live n with
    | none =>
      constructor
      · intro e
        cases e
      · rintro ⟨p, -, hp, -⟩
        cases hp
    | some p =>
      constructor
      · intro e
        cases e
        exact ⟨p, h, rfl, rfl, rfl⟩
      · rintro ⟨p', -, hp, rfl, rfl⟩
        cases hp
        rfl
  · rw [dif_neg h]
    constructor
    · intro e
      cases e
    · rintro ⟨p, h', -⟩
      exact absurd h' h

@[simp] theorem writeMem_run (p : ℤ) (bs : List UInt8) (w : World σ) :
    writeMem p bs w = .ok () { w with mem := w.mem.write p bs } := rfl

theorem assignSlice_run (b : Buffer) (lo : ℕ) (bs : List UInt8) (h : lo + bs.length ≤ b.size)
    (w : World σ) :
    assignSlice b lo bs w = .ok () { w with mem := w.mem.write (b.base + lo) bs } := by
  rw [assignSlice, if_pos h, writeMem_run]

theorem zeroSlice_run (b : Buffer) (lo hi : ℕ) (h : hi ≤ b.size) (w : World σ) :
    zeroSlice b lo hi w =
      .ok () { w with mem := w.mem.write (b.base + lo) (List.replicate (hi - lo) 0) } := by
  rw [zeroSlice, Nat.min_eq_left h, writeMem_run]

end Calls
end Npb.Numpy
