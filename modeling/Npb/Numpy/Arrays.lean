import Npb.Python.Values
import Mathlib.Algebra.BigOperators.Ring.List
import Mathlib.Tactic.Linarith

/-! # Strided arrays over the flat memory

An array is a view: a data pointer, an element type, a shape and a byte stride for each axis.
`tobytes` lists the bytes of its elements in C order, wherever the strides put them; for a
C-contiguous array that is the window of `nbytes` bytes at the data pointer (`tobytes_contiguous`).
-/

namespace Npb.Numpy
set_option autoImplicit false

/-! ## Element types -/

structure DType where
  str : String
  itemsize : ℕ
  hasobject : Bool
  /-- `dtype.fields is not None`. -/
  hasfields : Bool
  deriving DecidableEq, Repr

def uint8 : DType := ⟨"|u1", 1, false, false⟩

/-- What `np.dtype(...)` returns: an element type, or a fixed-shape block of one. -/
inductive NpDtype where
  | plain (dtype : DType)
  | subarray (base : DType) (shape : List ℕ)
  deriving DecidableEq, Repr

namespace NpDtype

def itemsize : NpDtype → ℕ
  | plain d => d.itemsize
  | subarray base shape => shape.prod * base.itemsize

def hasobject : NpDtype → Bool
  | plain d => d.hasobject
  | subarray base _ => base.hasobject

def hasfields : NpDtype → Bool
  | plain d => d.hasfields
  | subarray _ _ => false

end NpDtype

/-! ## Shapes and strides -/

/-- The shapes NumPy can give an array: at most 64 axes, every length an index, and the byte count
of the non-empty axes an index. -/
def ShapeOk (itemsize : ℕ) (shape : List ℕ) : Prop :=
  shape.length ≤ 64 ∧ (∀ d ∈ shape, d < 2 ^ 63) ∧ (shape.filter (0 < ·)).prod * itemsize < 2 ^ 63

instance (itemsize : ℕ) (shape : List ℕ) : Decidable (ShapeOk itemsize shape) :=
  inferInstanceAs (Decidable (_ ∧ _ ∧ _))

/-- The byte strides of C order. -/
def cStrides (itemsize : ℕ) : List ℕ → List ℤ
  | [] => []
  | _ :: shape => ((shape.prod * itemsize : ℕ) : ℤ) :: cStrides itemsize shape

/-- The lengths that the strides of an array are made of: NumPy takes a length of zero for one. -/
def strideLengths (shape : List ℕ) : List ℕ := shape.map (max 1)

/-- The byte offset of every element, in C order. -/
def offsets : List ℕ → List ℤ → List ℤ
  | [], _ => [0]
  | n :: shape, s :: strides =>
    (List.range n).flatMap fun i : ℕ => (offsets shape strides).map fun o => i * s + o
  | _ :: _, [] => []

/-- The strides agree with C order on every axis longer than one. -/
def stridesMatch (itemsize : ℕ) : List ℕ → List ℤ → Bool
  | [], _ => true
  | n :: shape, s :: strides =>
    (n == 1 || s == ((shape.prod * itemsize : ℕ) : ℤ)) && stridesMatch itemsize shape strides
  | _ :: _, [] => false

@[simp] theorem cStrides_length (itemsize : ℕ) (shape : List ℕ) :
    (cStrides itemsize shape).length = shape.length := by
  induction shape with
  | nil => rfl
  | cons n shape ih => rw [cStrides, List.length_cons, List.length_cons, ih]

@[simp] theorem strideLengths_length (shape : List ℕ) :
    (strideLengths shape).length = shape.length := List.length_map ..

theorem strideLengths_eq {shape : List ℕ} (h : 0 ∉ shape) : strideLengths shape = shape := by
  refine (List.map_congr_left fun n hn => ?_).trans (List.map_id shape)
  exact Nat.max_eq_right (Nat.pos_of_ne_zero fun hzero => h (hzero ▸ hn))

theorem offsets_length (shape : List ℕ) (strides : List ℤ) (h : strides.length = shape.length) :
    (offsets shape strides).length = shape.prod := by
  induction shape generalizing strides with
  | nil => rfl
  | cons n shape ih =>
    match strides with
    | s :: strides =>
      have hs : strides.length = shape.length := Nat.succ.inj h
      simp [offsets, List.length_flatMap, ih strides hs]

/-- Reading one element at each offset of C order reads the whole block. -/
theorem read_cStrides (m : Mem) (k : ℕ) (shape : List ℕ) (p : ℤ) :
    ((offsets shape (cStrides k shape)).flatMap fun o => m.read (p + o) k) =
      m.read p (shape.prod * k) := by
  induction shape generalizing p with
  | nil => simp [offsets]
  | cons n shape ih =>
    rw [cStrides, offsets, List.flatMap_assoc]
    have hrow : ∀ i : ℕ, (((offsets shape (cStrides k shape)).map
        fun o => (i : ℤ) * ((shape.prod * k : ℕ) : ℤ) + o).flatMap fun o => m.read (p + o) k) =
        m.read (p + i * ((shape.prod * k : ℕ) : ℤ)) (shape.prod * k) := by
      intro i
      rw [List.flatMap_map, ← ih]
      refine List.flatMap_congr fun o _ => ?_
      rw [add_assoc]
    rw [List.flatMap_congr fun i _ => hrow i, Mem.read_flatMap, List.prod_cons, Nat.mul_assoc]

theorem offsets_of_stridesMatch {k : ℕ} {shape : List ℕ} {strides : List ℤ}
    (h : stridesMatch k shape strides = true) :
    offsets shape strides = offsets shape (cStrides k shape) := by
  induction shape generalizing strides with
  | nil => rfl
  | cons n shape ih =>
    match strides with
    | s :: strides =>
      rw [stridesMatch, Bool.and_eq_true, Bool.or_eq_true, beq_iff_eq, beq_iff_eq] at h
      rw [offsets, cStrides, offsets, ih h.2]
      obtain hn | hs := h.1
      · -- an axis of length one contributes only the index 0
        subst hn
        simp
      · rw [hs]

theorem stridesMatch_cStrides (k : ℕ) (shape : List ℕ) :
    stridesMatch k shape (cStrides k shape) = true := by
  induction shape with
  | nil => rfl
  | cons n shape ih => simp [cStrides, stridesMatch, ih]

/-! ## Arrays -/

structure NdArray where
  data : ℤ
  dtype : DType
  shape : List ℕ
  strides : List ℤ
  strides_length : strides.length = shape.length
  shape_ok : ShapeOk dtype.itemsize shape
  deriving DecidableEq

namespace NdArray

def size (a : NdArray) : ℕ := a.shape.prod

def nbytes (a : NdArray) : ℕ := a.size * a.dtype.itemsize

/-- `a.flags.c_contiguous`. -/
def isCContiguous (a : NdArray) : Bool :=
  a.shape.contains 0 || stridesMatch a.dtype.itemsize a.shape a.strides

/-- The bytes of the elements in C order: `np.ascontiguousarray(a)` as raw bytes. -/
def tobytes (m : Mem) (a : NdArray) : List UInt8 :=
  (offsets a.shape a.strides).flatMap fun o => m.read (a.data + o) a.dtype.itemsize

/-- The address `x` holds a byte of one of the elements. -/
def Touches (a : NdArray) (x : ℤ) : Prop :=
  ∃ o ∈ offsets a.shape a.strides, a.data + o ≤ x ∧ x < a.data + o + a.dtype.itemsize

/-- The C-contiguous array of a given shape at an address. -/
def cArray (data : ℤ) (dtype : DType) (shape : List ℕ) (h : ShapeOk dtype.itemsize shape) :
    NdArray :=
  ⟨data, dtype, shape, cStrides dtype.itemsize (strideLengths shape),
    (cStrides_length ..).trans (strideLengths_length shape), h⟩

/-- What an array holds, apart from where: element type, shape and elements in C order. -/
structure Content where
  dtype : DType
  shape : List ℕ
  bytes : List UInt8
  deriving DecidableEq

def content (m : Mem) (a : NdArray) : Content := ⟨a.dtype, a.shape, a.tobytes m⟩

@[simp] theorem tobytes_length (m : Mem) (a : NdArray) : (a.tobytes m).length = a.nbytes := by
  simp [tobytes, nbytes, size, List.length_flatMap, offsets_length _ _ a.strides_length]

theorem tobytes_congr {m m' : Mem} (a : NdArray) (h : ∀ x, a.Touches x → m' x = m x) :
    a.tobytes m' = a.tobytes m := by
  refine List.flatMap_congr fun o ho => Mem.read_congr fun i hi => h _ ⟨o, ho, ?_, ?_⟩ <;> omega

theorem content_congr {m m' : Mem} (a : NdArray) (h : ∀ x, a.Touches x → m' x = m x) :
    a.content m' = a.content m := by
  rw [content, content, tobytes_congr a h]

theorem nbytes_eq_zero_of_mem {a : NdArray} (h : 0 ∈ a.shape) : a.nbytes = 0 := by
  rw [nbytes, size, List.prod_eq_zero h, Nat.zero_mul]

theorem nbytes_lt (a : NdArray) : a.nbytes < 2 ^ 63 := by
  by_cases h0 : 0 ∈ a.shape
  · rw [nbytes_eq_zero_of_mem h0]
    decide
  · have hfilter : a.shape.filter (0 < ·) = a.shape :=
      List.filter_eq_self.mpr fun d hd =>
        decide_eq_true (Nat.pos_of_ne_zero fun e => h0 (e ▸ hd))
    have h := a.shape_ok.2.2
    rwa [hfilter] at h

/-- A C-contiguous array is the window of its `nbytes` bytes. -/
theorem tobytes_contiguous (m : Mem) {a : NdArray} (h : a.isCContiguous = true) :
    a.tobytes m = m.read a.data a.nbytes := by
  rw [isCContiguous, Bool.or_eq_true, List.contains_iff_mem] at h
  obtain h0 | hs := h
  · have hb : a.nbytes = 0 := nbytes_eq_zero_of_mem h0
    have hl : (a.tobytes m).length = 0 := by rw [tobytes_length, hb]
    rw [hb, Mem.read_zero, List.length_eq_zero_iff.mp hl]
  · rw [tobytes, offsets_of_stridesMatch hs, read_cStrides]
    rfl

@[simp] theorem cArray_isCContiguous (data : ℤ) (dtype : DType) (shape : List ℕ)
    (h : ShapeOk dtype.itemsize shape) : (cArray data dtype shape h).isCContiguous = true := by
  rw [isCContiguous, Bool.or_eq_true, List.contains_iff_mem]
  by_cases hzero : 0 ∈ shape
  · exact .inl hzero
  · have hstrides : (cArray data dtype shape h).strides = cStrides dtype.itemsize shape :=
      congrArg (cStrides dtype.itemsize) (strideLengths_eq hzero)
    rw [hstrides]
    exact .inr (stridesMatch_cStrides _ _)

/-- Every offset of C order leaves room for an element inside the block. -/
theorem offset_cStrides_bounds {k : ℕ} {shape : List ℕ} {o : ℤ}
    (h : o ∈ offsets shape (cStrides k shape)) : 0 ≤ o ∧ o + k ≤ (shape.prod * k : ℕ) := by
  induction shape generalizing o with
  | nil =>
    rw [offsets, List.mem_singleton] at h
    subst h
    simp
  | cons n shape ih =>
    rw [cStrides, offsets, List.mem_flatMap] at h
    obtain ⟨i, hi, ho⟩ := h
    obtain ⟨o', ho', rfl⟩ := List.mem_map.mp ho
    obtain ⟨h0, h1⟩ := ih ho'
    have hi' : i + 1 ≤ n := List.mem_range.mp hi
    have hmul : (i + 1) * (shape.prod * k) ≤ n * (shape.prod * k) := Nat.mul_le_mul_right _ hi'
    have hexp : (i + 1) * (shape.prod * k) = i * (shape.prod * k) + shape.prod * k := by ring
    rw [List.prod_cons, Nat.mul_assoc]
    constructor
    · positivity
    · have hcast : ((i * (shape.prod * k) : ℕ) : ℤ) = (i : ℤ) * ((shape.prod * k : ℕ) : ℤ) := by
        push_cast
        ring
      omega

theorem exists_offset_cStrides {k : ℕ} {shape : List ℕ} {q : ℕ} (h : q < shape.prod * k) :
    ∃ o ∈ offsets shape (cStrides k shape), o ≤ q ∧ (q : ℤ) < o + k := by
  induction shape generalizing q with
  | nil =>
    rw [List.prod_nil, Nat.one_mul] at h
    exact ⟨0, List.mem_singleton_self 0, by omega, by omega⟩
  | cons n shape ih =>
    rw [List.prod_cons, Nat.mul_assoc] at h
    have hpos : 0 < shape.prod * k := Nat.pos_of_mul_pos_left (Nat.zero_lt_of_lt h)
    have hrow : q / (shape.prod * k) < n := Nat.div_lt_of_lt_mul (by rwa [Nat.mul_comm] at h)
    obtain ⟨o, ho, hlo, hhi⟩ := ih (Nat.mod_lt q hpos)
    have hdiv := Nat.div_add_mod q (shape.prod * k)
    have hcast : ((q / (shape.prod * k) : ℕ) : ℤ) * ((shape.prod * k : ℕ) : ℤ) =
        ((shape.prod * k * (q / (shape.prod * k)) : ℕ) : ℤ) := by
      push_cast
      ring
    refine ⟨(q / (shape.prod * k) : ℕ) * ((shape.prod * k : ℕ) : ℤ) + o, ?_, ?_, ?_⟩
    · rw [cStrides, offsets, List.mem_flatMap]
      exact ⟨_, List.mem_range.mpr hrow, List.mem_map_of_mem ho⟩
    · rw [hcast]
      omega
    · rw [hcast]
      omega

theorem touches_contiguous {a : NdArray} (h : a.isCContiguous = true) {x : ℤ} (hx : a.Touches x) :
    a.data ≤ x ∧ x < a.data + a.nbytes := by
  obtain ⟨o, ho, h1, h2⟩ := hx
  rw [isCContiguous, Bool.or_eq_true, List.contains_iff_mem] at h
  obtain h0 | hs := h
  · have hl := offsets_length a.shape a.strides a.strides_length
    rw [List.prod_eq_zero h0, List.length_eq_zero_iff] at hl
    rw [hl] at ho
    cases ho
  · rw [offsets_of_stridesMatch hs] at ho
    obtain ⟨h3, h4⟩ := offset_cStrides_bounds ho
    rw [nbytes, size]
    omega

theorem touches_iff_contiguous {a : NdArray} (h : a.isCContiguous = true) {x : ℤ} :
    a.Touches x ↔ a.data ≤ x ∧ x < a.data + a.nbytes := by
  refine ⟨touches_contiguous h, ?_⟩
  rintro ⟨hlo, hhi⟩
  obtain ⟨q, rfl⟩ : ∃ q : ℕ, x = a.data + q := ⟨(x - a.data).toNat, by omega⟩
  have hq : q < a.shape.prod * a.dtype.itemsize := by
    rw [nbytes, size] at hhi
    omega
  rw [isCContiguous, Bool.or_eq_true, List.contains_iff_mem] at h
  obtain h0 | hs := h
  · rw [List.prod_eq_zero h0, Nat.zero_mul] at hq
    omega
  · obtain ⟨o, ho, h1, h2⟩ := exists_offset_cStrides hq
    rw [← offsets_of_stridesMatch hs] at ho
    exact ⟨o, ho, by omega, by omega⟩

end NdArray
end Npb.Numpy
