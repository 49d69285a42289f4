import Npb.Numpy.Views

/-! # The elements of strided views

Two views of one memory can share the data pointer, the shape and the element type and still have
different elements, since the strides say where each element lies. They have the same elements,
whatever the memory holds, exactly when their elements lie at the same offsets. -/

namespace Npb.Numpy
set_option autoImplicit false

/-- Offsets in C order come from strides in C order, unless an axis is empty. -/
theorem stridesMatch_of_offsets {k : ℕ} {shape : List ℕ} {strides : List ℤ} (hpos : 0 ∉ shape)
    (hlength : strides.length = shape.length)
    (h : offsets shape strides = offsets shape (cStrides k shape)) :
    stridesMatch k shape strides = true := by
  induction shape generalizing strides with
  | nil => rfl
  | cons n shape ih =>
    match strides with
    | s :: strides =>
      have hrest : strides.length = shape.length := Nat.succ.inj hlength
      have hn : n ≠ 0 := fun e => hpos (e ▸ List.mem_cons_self ..)
      have hshape : 0 ∉ shape := fun e => hpos (List.mem_cons_of_mem _ e)
      have hrows := offsets_length shape strides hrest
      have hrows' := offsets_length shape (cStrides k shape) (cStrides_length k shape)
      obtain ⟨n, rfl⟩ := Nat.exists_eq_succ_of_ne_zero hn
      rw [cStrides, offsets, offsets, List.range_succ_eq_map, List.flatMap_cons,
        List.flatMap_cons] at h
      obtain ⟨hfirst, hlater⟩ := List.append_inj h (by simp [hrows, hrows'])
      simp only [Nat.cast_zero, zero_mul, zero_add, List.map_id'] at hfirst
      rw [stridesMatch, ih hshape hrest hfirst, Bool.and_true, Bool.or_eq_true, beq_iff_eq,
        beq_iff_eq]
      cases n with
      | zero => exact .inl rfl
      | succ n =>
        -- the second row starts one stride after the first
        right
        rw [List.range_succ_eq_map, List.map_cons, List.flatMap_cons, List.flatMap_cons] at hlater
        obtain ⟨hsecond, -⟩ := List.append_inj hlater (by simp [hrows, hrows'])
        rw [hfirst] at hsecond
        have hne : offsets shape (cStrides k shape) ≠ [] := by
          rw [← List.length_pos_iff, hrows']
          exact Nat.pos_of_ne_zero (List.prod_ne_zero hshape)
        obtain ⟨o, os, hos⟩ := List.exists_cons_of_ne_nil hne
        rw [hos, List.map_cons, List.map_cons] at hsecond
        have hhead := (List.cons.inj hsecond).1
        simp only [Nat.cast_succ, Nat.cast_zero, zero_add, one_mul] at hhead
        omega

namespace NdArray

/-- The bytes of each element, in C order. -/
def elements (m : Mem) (a : NdArray) : List (List UInt8) :=
  (offsets a.shape a.strides).map fun o => m.read (a.data + o) a.dtype.itemsize

/-- The same shape and, whatever the memory holds, the same element at every index. -/
structure SameElements (a b : NdArray) : Prop where
  shape : a.shape = b.shape
  dtype : a.dtype.str = b.dtype.str
  elements : ∀ m, a.elements m = b.elements m

theorem isCContiguous_iff_offsets {a : NdArray} (hpos : 0 ∉ a.shape) :
    a.isCContiguous = true ↔
      offsets a.shape a.strides = offsets a.shape (cStrides a.dtype.itemsize a.shape) := by
  rw [isCContiguous, Bool.or_eq_true, List.contains_iff_mem]
  constructor
  · rintro (h0 | hs)
    · exact absurd h0 hpos
    · exact offsets_of_stridesMatch hs
  · intro h
    exact .inr (stridesMatch_of_offsets hpos a.strides_length h)

/-- Elements of at least one byte that agree in every memory lie at the same places. -/
theorem offsets_eq_of_elements {a b : NdArray} (hdata : a.data = b.data)
    (hpos : 0 < a.dtype.itemsize)
    (h : ∀ m, a.elements m = b.elements m) :
    offsets a.shape a.strides = offsets b.shape b.strides := by
  have hlength := congrArg List.length (h fun _ => 0)
  rw [elements, elements, List.length_map, List.length_map] at hlength
  refine List.ext_getElem hlength fun i hi hi' => ?_
  have hone := h fun x => if x = a.data + (offsets a.shape a.strides)[i] then 1 else 0
  have hbytes := List.getElem_of_eq hone (i := i) (by rwa [elements, List.length_map])
  simp only [elements, List.getElem_map] at hbytes
  have hfirst := List.getElem_of_eq hbytes (i := 0) (by rwa [Mem.read_length])
  rw [Mem.read_getElem, Mem.read_getElem] at hfirst
  simp only [Nat.cast_zero, add_zero, if_true] at hfirst
  by_contra hne
  rw [if_neg (by omega)] at hfirst
  exact absurd hfirst (by decide)

/-- A view that starts where a contiguous array of its shape and byte count starts. -/
theorem sameElements_iff {a b : NdArray} (hb : b.isCContiguous = true) (hdata : a.data = b.data)
    (hnbytes : a.nbytes = b.nbytes) (hdtype : a.dtype.str = b.dtype.str)
    (hshape : a.shape = b.shape) :
    SameElements a b ↔ a.isCContiguous = true ∨ a.dtype.itemsize = 0 := by
  by_cases h0 : 0 ∈ a.shape
  · -- no elements at all
    have hnone : ∀ c : NdArray, c.shape = a.shape → offsets c.shape c.strides = [] := by
      intro c hc
      rw [← List.length_eq_zero_iff, offsets_length _ _ c.strides_length, hc, List.prod_eq_zero h0]
    refine ⟨fun _ => .inl ?_, fun _ => ⟨hshape, hdtype, fun m => ?_⟩⟩
    · rw [isCContiguous, Bool.or_eq_true, List.contains_iff_mem]
      exact .inl h0
    · rw [elements, elements, hnone a rfl, hnone b hshape.symm]
      rfl
  have hitem : a.dtype.itemsize = b.dtype.itemsize := by
    have hprod : 0 < a.shape.prod := Nat.pos_of_ne_zero (List.prod_ne_zero h0)
    rw [nbytes, nbytes, size, size, ← hshape] at hnbytes
    exact Nat.eq_of_mul_eq_mul_left hprod hnbytes
  have hoffsets : offsets b.shape b.strides =
      offsets a.shape (cStrides a.dtype.itemsize a.shape) := by
    rw [(isCContiguous_iff_offsets (by rwa [← hshape])).mp hb, hshape, hitem]
  constructor
  · intro h
    obtain hzero | hpos := Nat.eq_zero_or_pos a.dtype.itemsize
    · exact .inr hzero
    · left
      rw [isCContiguous_iff_offsets h0, ← hoffsets]
      exact offsets_eq_of_elements hdata hpos h.elements
  · rintro (hc | hzero)
    · refine ⟨hshape, hdtype, fun m => ?_⟩
      rw [elements, elements, (isCContiguous_iff_offsets h0).mp hc, hoffsets, hdata, hitem]
    · refine ⟨hshape, hdtype, fun m => ?_⟩
      have hlength : (offsets a.shape a.strides).length = (offsets b.shape b.strides).length := by
        rw [offsets_length _ _ a.strides_length, offsets_length _ _ b.strides_length, hshape]
      rw [elements, elements, ← hitem, hzero]
      simp only [Mem.read_zero, List.map_const', hlength]

end NdArray
end Npb.Numpy
