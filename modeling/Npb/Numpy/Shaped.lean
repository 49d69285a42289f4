import Mathlib.Algebra.BigOperators.Group.List.Lemmas
import Mathlib.Algebra.Order.BigOperators.GroupWithZero.List
import Npb.Numpy.Views

/-! # Arrays over a given buffer

`np.prod` and `np.ndarray` multiply the lengths of a shape in 64 bits. The product is the exact one
if and only if that is less than `2 ^ 63` (`npProd_eq_iff`), and then an array of this shape has its
place in every buffer of its size (`ndarray_fits`). -/

namespace Npb.Numpy
set_option autoImplicit false

/-! ## Products -/

/-- `np.prod(dims, dtype=np.int64)` of 64-bit lengths: every product wraps. Lengths that need more
than 63 bits reach NumPy as `uint64` or `float64`, which this does not follow. -/
def npProd (dims : List ℤ) : Int64 := (dims.map Int64.ofInt).foldl (· * ·) 1

section Products
variable {dims : List ℤ}

theorem foldl_mul_toInt (acc : Int64) (dims : List ℤ) :
    ((dims.map Int64.ofInt).foldl (· * ·) acc).toInt = (acc.toInt * dims.prod).bmod (2 ^ 64) := by
  induction dims generalizing acc with
  | nil =>
    rw [List.map_nil, List.foldl_nil, List.prod_nil, mul_one]
    exact (Int64.toInt_bmod acc).symm
  | cons d dims ih =>
    have hd : (Int64.ofInt d).toInt = d.bmod (2 ^ 64) := Int64.toInt_ofInt
    rw [List.map_cons, List.foldl_cons, ih, Int64.toInt_mul, hd, Int.mul_bmod_bmod,
      Int.bmod_mul_bmod, List.prod_cons, mul_assoc]

theorem npProd_toInt (dims : List ℤ) : (npProd dims).toInt = dims.prod.bmod (2 ^ 64) := by
  unfold npProd
  rw [foldl_mul_toInt]
  exact congrArg (Int.bmod · (2 ^ 64)) (one_mul _)

theorem npProd_of_lt (hpos : ∀ d ∈ dims, 0 < d) (h : dims.prod < 2 ^ 63) :
    (npProd dims).toInt = dims.prod := by
  have hprod := List.prod_pos hpos
  rw [npProd_toInt]
  exact Int.bmod_eq_of_le_mul_two (by omega) (by omega)

theorem npProd_eq_iff (hpos : ∀ d ∈ dims, 0 < d) :
    (npProd dims).toInt = dims.prod ↔ dims.prod < 2 ^ 63 := by
  constructor
  · intro h
    have hlt := (npProd dims).toInt_lt
    omega
  · exact npProd_of_lt hpos

end Products

/-! ## Strides -/

/-- The byte strides of Fortran order. -/
def fStrides (step : ℕ) : List ℕ → List ℤ
  | [] => []
  | n :: shape => (step : ℤ) :: fStrides (step * n) shape

@[simp] theorem fStrides_length (step : ℕ) (shape : List ℕ) :
    (fStrides step shape).length = shape.length := by
  induction shape generalizing step with
  | nil => rfl
  | cons n shape ih => rw [fStrides, List.length_cons, List.length_cons, ih]

theorem offset_fStrides_bounds {step : ℕ} {shape : List ℕ} {o : ℤ}
    (h : o ∈ offsets shape (fStrides step shape)) : 0 ≤ o ∧ o + step ≤ (shape.prod * step : ℕ) := by
  induction shape generalizing step o with
  | nil =>
    rw [offsets, List.mem_singleton] at h
    subst h
    simp
  | cons n shape ih =>
    rw [fStrides, offsets, List.mem_flatMap] at h
    obtain ⟨i, hi, ho⟩ := h
    obtain ⟨o', ho', rfl⟩ := List.mem_map.mp ho
    obtain ⟨h0, h1⟩ := ih ho'
    have hi' : i + 1 ≤ n := List.mem_range.mp hi
    have hmul : (i + 1) * step ≤ n * step := Nat.mul_le_mul_right _ hi'
    have hexp : (i + 1) * step = i * step + step := by ring
    have hprod : (n :: shape).prod * step = shape.prod * (step * n) := by
      rw [List.prod_cons]
      ring
    rw [hprod]
    constructor
    · positivity
    · have hcast : ((i * step : ℕ) : ℤ) = (i : ℤ) * step := by push_cast; rfl
      have hcomm : n * step = step * n := Nat.mul_comm n step
      omega

/-! ## `np.ndarray` -/

def stridesOf (fortran : Bool) (itemsize : ℕ) (shape : List ℕ) : List ℤ :=
  if fortran then fStrides itemsize (strideLengths shape)
  else cStrides itemsize (strideLengths shape)

theorem stridesOf_length (fortran : Bool) (itemsize : ℕ) (shape : List ℕ) :
    (stridesOf fortran itemsize shape).length = shape.length := by
  cases fortran with
  | true => exact (fStrides_length ..).trans (strideLengths_length shape)
  | false => exact (cStrides_length ..).trans (strideLengths_length shape)

theorem offset_stridesOf_bounds {fortran : Bool} {itemsize : ℕ} {shape : List ℕ} {o : ℤ}
    (h : o ∈ offsets shape (stridesOf fortran itemsize shape)) :
    0 ≤ o ∧ o + itemsize ≤ (shape.prod * itemsize : ℕ) := by
  unfold stridesOf at h
  have hlength := offsets_length shape (stridesOf fortran itemsize shape) (stridesOf_length ..)
  by_cases hzero : 0 ∈ shape
  · rw [List.prod_eq_zero hzero, List.length_eq_zero_iff, stridesOf] at hlength
    rw [hlength] at h
    cases h
  · rw [strideLengths_eq hzero] at h
    cases fortran with
    | true => exact offset_fStrides_bounds h
    | false => exact NdArray.offset_cStrides_bounds h

/-- A single length of -1 stands for as many elements as the buffer has room for. -/
def knownShape (itemsize : ℕ) (shape : List ℤ) (buffer : Buffer) : List ℤ :=
  if shape = [-1] then [((buffer.size / itemsize : ℕ) : ℤ)] else shape

/-- An array of so many lengths at the start of a buffer. -/
def arrayOver (dtype : DType) (shape : List ℤ) (buffer : Buffer) (fortran : Bool) :
    Except PyError NdArray :=
  let dims := shape.map Int.toNat
  if 64 < shape.length then
    .error (.valueError ("maximum supported dimension for an ndarray is currently 64, found " ++
      toString shape.length))
  else if shape.any fun d => d < -2 ^ 63 ∨ 2 ^ 63 ≤ d then
    .error (.valueError "Maximum allowed dimension exceeded")
  else if buffer.size < (Int64.ofNat dtype.itemsize * npProd shape).toInt then
    .error (.typeError "buffer is too small for requested array")
  else if shape.any (· < 0) then .error (.valueError "negative dimensions are not allowed")
  else if h : ShapeOk dtype.itemsize dims then
    .ok ⟨buffer.base, dtype, dims, stridesOf fortran dtype.itemsize dims, stridesOf_length .., h⟩
  else .error (.valueError ("array is too big; `arr.size * arr.dtype.itemsize` is larger than " ++
    "the maximum possible size."))

/-- `np.ndarray(shape, dtype=dtype, buffer=buffer, order=order)`, for a type of positive size. -/
def ndarray (dtype : DType) (shape : List ℤ) (buffer : Buffer) (fortran : Bool) :
    Except PyError NdArray :=
  arrayOver dtype (knownShape dtype.itemsize shape buffer) buffer fortran

section Fitting
variable {dtype : DType} {shape : List ℤ} {buffer : Buffer} {fortran : Bool}

theorem ndarray_of_pos (hpos : ∀ d ∈ shape, 0 < d) :
    ndarray dtype shape buffer fortran = arrayOver dtype shape buffer fortran := by
  have hne : shape ≠ [-1] := by
    rintro rfl
    exact absurd (hpos (-1) List.mem_cons_self) (by decide)
  rw [ndarray, knownShape, if_neg hne]

theorem prod_toNat (hpos : ∀ d ∈ shape, 0 < d) : ((shape.map Int.toNat).prod : ℤ) = shape.prod := by
  induction shape with
  | nil => rfl
  | cons d shape ih =>
    rw [List.map_cons, List.prod_cons, List.prod_cons, Nat.cast_mul,
      ih fun e he => hpos e (List.mem_cons_of_mem d he),
      Int.toNat_of_nonneg (Int.le_of_lt (hpos d List.mem_cons_self))]

theorem filter_toNat (hpos : ∀ d ∈ shape, 0 < d) :
    (shape.map Int.toNat).filter (0 < ·) = shape.map Int.toNat := by
  refine List.filter_eq_self.mpr fun n hn => ?_
  obtain ⟨d, hd, rfl⟩ := List.mem_map.mp hn
  exact decide_eq_true (Int.lt_toNat.mpr (hpos d hd))

theorem le_prod_of_mem (hpos : ∀ d ∈ shape, 0 < d) {d : ℤ} (hd : d ∈ shape) : d ≤ shape.prod :=
  Int.le_of_dvd (List.prod_pos hpos) (List.dvd_prod hd)

theorem shapeOk_toNat (haxes : shape.length ≤ 64) (hpos : ∀ d ∈ shape, 0 < d)
    (hprod : shape.prod < 2 ^ 63) {itemsize : ℕ} (hsize : shape.prod * itemsize < 2 ^ 63) :
    ShapeOk itemsize (shape.map Int.toNat) := by
  have hcast := prod_toNat hpos
  refine ⟨by rwa [List.length_map], ?_, ?_⟩
  · intro n hn
    obtain ⟨d, hd, rfl⟩ := List.mem_map.mp hn
    have hle := le_prod_of_mem hpos hd
    omega
  · rw [filter_toNat hpos]
    rw [← hcast] at hsize
    exact_mod_cast hsize

/-- An array of this shape takes as many bytes as it has elements times their size. -/
theorem ndarray_fits (haxes : shape.length ≤ 64) (hpos : ∀ d ∈ shape, 0 < d)
    (hitem : 0 < dtype.itemsize) (hsize : shape.prod * dtype.itemsize ≤ buffer.size) :
    ∃ a, ndarray dtype shape buffer fortran = .ok a ∧ a.dtype = dtype ∧
      a.shape = shape.map Int.toNat ∧ ∀ x, a.Touches x → buffer.Contains x := by
  have hpositive := List.prod_pos hpos
  have hitem' : (1 : ℤ) ≤ dtype.itemsize := by exact_mod_cast hitem
  have hle : shape.prod ≤ shape.prod * dtype.itemsize :=
    le_mul_of_one_le_right hpositive.le hitem'
  have hbuffer := buffer.size_lt
  have hbytes : shape.prod * dtype.itemsize < 2 ^ 63 := by omega
  have hprod : shape.prod < 2 ^ 63 := hle.trans_lt hbytes
  have hdims : (shape.any fun d => d < -2 ^ 63 ∨ 2 ^ 63 ≤ d) = false := by
    rw [List.any_eq_false]
    intro d hd
    have hd' := le_prod_of_mem hpos hd
    have hd₀ := hpos d hd
    simp only [decide_eq_true_eq]
    omega
  have hsigned : shape.any (· < 0) = false := by
    rw [List.any_eq_false]
    intro d hd
    have hd' := hpos d hd
    simp only [decide_eq_true_eq, not_lt]
    omega
  have hexact : (Int64.ofNat dtype.itemsize * npProd shape).toInt =
      shape.prod * dtype.itemsize := by
    have hofNat : (Int64.ofNat dtype.itemsize).toInt = (dtype.itemsize : ℤ).bmod (2 ^ 64) :=
      Int64.toInt_ofNat'
    rw [Int64.toInt_mul, npProd_of_lt hpos hprod, hofNat, Int.bmod_mul_bmod, mul_comm]
    exact Int.bmod_eq_of_le_mul_two (by omega) (by omega)
  have hok := shapeOk_toNat haxes hpos hprod hbytes
  rw [ndarray_of_pos hpos]
  unfold arrayOver
  simp only [if_neg (Nat.not_lt.mpr haxes), hdims, hexact, if_neg (Int.not_lt.mpr hsize), hsigned,
    dif_pos hok, Bool.false_eq_true, if_false]
  refine ⟨_, rfl, rfl, rfl, ?_⟩
  intro x hx
  obtain ⟨o, ho, hlo, hhi⟩ := hx
  obtain ⟨h0, h1⟩ := offset_stridesOf_bounds ho
  have hcast := prod_toNat hpos
  unfold Buffer.Contains
  constructor
  · show buffer.base ≤ x
    have hlo : buffer.base + o ≤ x := hlo
    omega
  · have hhi : x < buffer.base + o + dtype.itemsize := hhi
    have h1 : o + dtype.itemsize ≤ ((shape.map Int.toNat).prod * dtype.itemsize : ℕ) := h1
    rw [Nat.cast_mul, hcast] at h1
    omega

theorem ndarray_wrapped (hpos : ∀ d ∈ shape, 0 < d) (hitem : 0 < dtype.itemsize)
    (hprod : 2 ^ 63 ≤ shape.prod) : ∃ e, ndarray dtype shape buffer fortran = .error e := by
  have hbad : ¬ ShapeOk dtype.itemsize (shape.map Int.toNat) := by
    intro hok
    have hcast := prod_toNat hpos
    have hbytes := hok.2.2
    rw [filter_toNat hpos] at hbytes
    have hle := Nat.le_mul_of_pos_right (shape.map Int.toNat).prod hitem
    omega
  rw [ndarray_of_pos hpos]
  unfold arrayOver
  simp only [dif_neg hbad]
  split_ifs
  · exact ⟨_, rfl⟩
  · exact ⟨_, rfl⟩
  · exact ⟨_, rfl⟩
  · exact ⟨_, rfl⟩
  · exact ⟨_, rfl⟩

end Fitting
end Npb.Numpy
