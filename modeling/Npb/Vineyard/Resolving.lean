import Npb.Vineyard.Measuring
import Npb.Vineyard.Resolved

/-! # Resolving a reference

`get_array` on a reference that `from_manifest` accepts, and an array stored under its ID. The view
is the window that the reference names (`viewObject_plain`), if its dtype is one an array can have,
its shape one that NumPy supports and the stored array one that has a byte view; otherwise the
exception is none of npb's (`getArray_safe_iff`). What `put_array` stored comes back at once, but
for the shape of an array without axes (`get_put_iff`). -/

namespace Npb.Vineyard
set_option autoImplicit false
open Effects Numpy

variable {O C : Type} {V : VineyardStore O C} {R : Runtime}

/-! ## One view -/

section View
variable {ref : BlobRef} {value array : NdArray} {writeable : Bool} {dtype : NpDtype} {d : DType}
  {dims : List ℕ}

/-- The stored array covers the bytes that the reference asks for. -/
def InBounds (ref : BlobRef) (value : NdArray) : Prop :=
  0 ≤ ref.offset ∧ ref.offset + ref.nbytes ≤ value.nbytes

theorem viewObject_outside (hcontiguous : value.isCContiguous = true)
    (houtside : ¬ InBounds ref value) :
    viewObject R ref (.array value writeable) =
      .error (.blobStoreError "blob reference exceeds Vineyard ndarray size") := by
  unfold InBounds at houtside
  rw [viewObject, raiseIf_bind (by simp [hcontiguous])]
  exact raiseIf_bind_of (by omega)

theorem viewObject_inside (hcontiguous : value.isCContiguous = true) (hinside : InBounds ref value)
    (hdtype : R.dtype (.leaf (.str ref.dtype)) = .ok dtype) (hitem : dtype.itemsize ≠ 0) :
    viewObject R ref (.array value writeable) =
      if ref.offset = 0 ∧ ref.nbytes = (value.nbytes : ℤ) ∧ .plain value.dtype = dtype then
        reshape value ref.shape
      else byteView value >>= fun bytes =>
        frombuffer bytes dtype (ref.nbytes / dtype.itemsize) ref.offset >>= fun flat =>
          reshape flat ref.shape := by
  unfold InBounds at hinside
  rw [viewObject, raiseIf_bind (by simp [hcontiguous])]
  dsimp only
  rw [raiseIf_bind (by omega), hdtype]
  exact raiseIf_bind hitem

theorem viewObject_plain (hwell : ref.WellFormed R (.plain d) dims) (hitem : 0 < d.itemsize)
    (hshape : ShapeOk d.itemsize dims) (hcontiguous : value.isCContiguous = true)
    (hobject : value.dtype.hasobject = false) (haxes : value.shape ≠ [])
    (hinside : InBounds ref value) :
    viewObject R ref (.array value writeable) =
      .ok (.cArray (value.data + ref.offset) d dims hshape) := by
  have hnbytes := hwell.nbytes
  have hitem' : (NpDtype.plain d).itemsize ≠ 0 := Nat.ne_of_gt hitem
  rw [viewObject_inside hcontiguous hinside hwell.dtype_str hitem', hwell.shape]
  split
  · next hwhole =>
    obtain ⟨hoffset, hsize, hsame⟩ := hwhole
    cases hsame
    rw [hoffset, add_zero]
    refine reshape_eq_ok.mpr ⟨?_, hshape, rfl⟩
    have hbytes : value.dtype.itemsize * dims.prod = value.dtype.itemsize * value.size := by
      have hcast : ((value.dtype.itemsize * dims.prod : ℕ) : ℤ) = (value.nbytes : ℤ) :=
        hnbytes.symm.trans hsize
      rw [Int.natCast_inj.mp hcast, NdArray.nbytes, Nat.mul_comm]
    exact Nat.eq_of_mul_eq_mul_left hitem hbytes
  · obtain ⟨offset, hoffset⟩ := Int.eq_ofNat_of_zero_le hinside.1
    have hview : byteView value = .ok ⟨value.data, value.nbytes, value.nbytes_lt⟩ := by
      rw [byteView, if_neg (by simp [hobject]), if_neg (by simp [haxes])]
    have hcount : ref.nbytes / ((NpDtype.plain d).itemsize : ℤ) = (dims.prod : ℕ) := by
      rw [hnbytes, ← Int.natCast_ediv, Nat.mul_div_cancel_left _ (Nat.pos_of_ne_zero hitem')]
    have hroom : offset + dims.prod * (NpDtype.plain d).itemsize ≤ value.nbytes := by
      have hin := hinside.2
      rw [hnbytes, hoffset, Nat.mul_comm] at hin
      omega
    have hflat : elementsAt (value.data + offset) (.plain d) dims.prod =
        .ok (.cArray (value.data + offset) d [dims.prod] (shapeOk_flat hshape hitem)) :=
      mkArray_eq_ok.mpr ⟨shapeOk_flat hshape hitem, rfl⟩
    rw [hview, hcount, hoffset]
    show (frombuffer _ _ _ _ >>= fun flat => reshape flat _) = _
    rw [frombuffer_run hwell.hasobject hitem' hroom, hflat]
    exact reshape_eq_ok.mpr ⟨List.prod_singleton.symm, hshape, rfl⟩

theorem frombuffer_error {b : Buffer} {count offset : ℤ} {e : PyError}
    (h : frombuffer b dtype count offset = .error e) :
    (∃ message, e = .valueError message) ∨ ∃ message, e = .overflowError message := by
  unfold frombuffer at h
  simp only [raiseIf_bind_eq_error] at h
  rcases h with ⟨-, rfl⟩ | ⟨-, ⟨-, rfl⟩ | ⟨-, ⟨-, rfl⟩ | ⟨-, ⟨-, rfl⟩ | ⟨-, ⟨-, rfl⟩ |
    ⟨-, ⟨-, rfl⟩ | ⟨-, h⟩⟩⟩⟩⟩⟩
  · exact .inl ⟨_, rfl⟩
  · exact .inl ⟨_, rfl⟩
  · exact .inr ⟨_, rfl⟩
  · exact .inl ⟨_, rfl⟩
  · exact .inl ⟨_, rfl⟩
  · exact .inl ⟨_, rfl⟩
  · exact .inl (elementsAt_error h)

theorem viewObject_error (hcontiguous : value.isCContiguous = true) (hinside : InBounds ref value)
    (hdtype : R.dtype (.leaf (.str ref.dtype)) = .ok dtype) {message : String} :
    viewObject R ref (.array value writeable) ≠ .error (.blobStoreError message) := by
  intro h
  by_cases hitem : dtype.itemsize = 0
  · unfold InBounds at hinside
    rw [viewObject, raiseIf_bind (by simp [hcontiguous])] at h
    dsimp only at h
    rw [raiseIf_bind (by omega), hdtype] at h
    cases (raiseIf_bind_of hitem).symm.trans h
  · rw [viewObject_inside hcontiguous hinside hdtype hitem] at h
    split at h
    · obtain ⟨text, he⟩ := reshape_error h
      cases he
    · cases except_bind_eq_error.mp h with
      | inl hbytes =>
        unfold byteView at hbytes
        split at hbytes
        · cases hbytes
        split at hbytes <;> cases hbytes
      | inr hrest =>
        obtain ⟨bytes, -, hrest⟩ := hrest
        cases except_bind_eq_error.mp hrest with
        | inl hflat =>
          cases frombuffer_error hflat with
          | inl he =>
            obtain ⟨text, he⟩ := he
            cases he
          | inr he =>
            obtain ⟨text, he⟩ := he
            cases he
        | inr hreshape =>
          obtain ⟨flat, -, hreshape⟩ := hreshape
          obtain ⟨text, he⟩ := reshape_error hreshape
          cases he

/-! ## Safe references -/

/-- `array` is what the reference denotes: of its dtype and shape, over the bytes of `value` that it
names. -/
structure Resolves (R : Runtime) (ref : BlobRef) (value array : NdArray) : Prop where
  dtype : R.dtype (.leaf (.str ref.dtype)) = .ok (.plain array.dtype)
  shape : array.shape.map (fun d : ℕ => (d : ℤ)) = ref.shape
  inside : InBounds ref value
  data : array.data = value.data + ref.offset
  nbytes : (array.nbytes : ℤ) = ref.nbytes
  contiguous : array.isCContiguous = true

/-- The reference asks for more than the stored array has, or for elements of one plain dtype with
a positive itemsize in a shape that NumPy supports, and the stored array has a byte view. -/
def Resolvable (R : Runtime) (ref : BlobRef) (value : NdArray) : Prop :=
  InBounds ref value → ∃ d, R.dtype (.leaf (.str ref.dtype)) = .ok (.plain d) ∧ 0 < d.itemsize ∧
    ShapeOk d.itemsize (ref.shape.map Int.toNat) ∧ value.dtype.hasobject = false

theorem viewObject_resolves (hcheck : ref.check R = .ok ref)
    (hcontiguous : value.isCContiguous = true) (haxes : value.shape ≠ [])
    (hinside : InBounds ref value) (hresolvable : Resolvable R ref value) :
    ∃ array, viewObject R ref (.array value writeable) = .ok array ∧
      Resolves R ref value array := by
  obtain ⟨dtype, dims, hwell⟩ := BlobRef.check_wellFormed hcheck
  obtain ⟨d, hdtype, hitem, hshape, hobject⟩ := hresolvable hinside
  cases hwell.dtype_str.symm.trans hdtype
  rw [hwell.shape, map_toNat_natCast] at hshape
  refine ⟨_, viewObject_plain hwell hitem hshape hcontiguous hobject haxes hinside, hdtype,
    hwell.shape.symm, hinside, rfl, ?_, NdArray.cArray_isCContiguous ..⟩
  rw [hwell.nbytes, Nat.mul_comm]
  rfl

theorem resolvable_of_view (hcheck : ref.check R = .ok ref)
    (hview : viewObject R ref (.array value writeable) = .ok array)
    (hresolves : Resolves R ref value array) : Resolvable R ref value := by
  intro hinside
  obtain ⟨dtype, dims, hwell⟩ := BlobRef.check_wellFormed hcheck
  obtain ⟨value', writeable', dtype', hv, -, -, -, hdtype', hitem, hview⟩ := viewObject_ok hview
  cases hv
  cases hresolves.dtype.symm.trans hdtype'
  cases hwell.dtype_str.symm.trans hdtype'
  refine ⟨array.dtype, hresolves.dtype, Nat.pos_of_ne_zero hitem, ?_, ?_⟩
  · rw [← hresolves.shape, map_toNat_natCast]
    exact array.shape_ok
  · cases hview with
    | inl hwhole =>
      have hsame := NpDtype.plain.inj hwhole.2.1
      rw [hsame]
      exact hwell.hasobject
    | inr hbytes =>
      obtain ⟨bytes, flat, hbytes, -⟩ := hbytes
      exact (byteView_ok hbytes).1

end View

section Get
variable {ref : BlobRef} {value : NdArray} {writeable : Bool} {w : World (State C)} {v : World C}
  {o : O}

/-- What `get_array` makes of what the client returns. -/
theorem getArray_run {value : Argument} (hkind : ref.store = kind)
    (hid : V.client.objectID ref.objectId = .ok o)
    (hget : V.client.get o (clientWorld w) = .ok value v) :
    getArray V R ref w = (do
      let array ← fromExcept (viewObject R ref value)
      registerResolved array ref
      return array) (withClient w v) := by
  unfold getArray
  refine (bind_ok (fromExcept_eq_ok.mpr ⟨raiseIf_eq_ok.mpr (not_not.mpr hkind), rfl⟩) _).trans ?_
  refine (bind_ok (fromExcept_eq_ok.mpr ⟨hid, rfl⟩) _).trans ?_
  rw [bind_ok (inClient_ok hget)]

theorem getArray_view_ok {value : Argument} {array : NdArray} (hkind : ref.store = kind)
    (hid : V.client.objectID ref.objectId = .ok o)
    (hget : V.client.get o (clientWorld w) = .ok value v)
    (hview : viewObject R ref value = .ok array) :
    ∃ w', getArray V R ref w = .ok array w' ∧ w'.mem = v.mem := by
  rw [getArray_run hkind hid hget, bind_ok (fromExcept_eq_ok.mpr ⟨hview, rfl⟩)]
  exact ⟨_, rfl, rfl⟩

theorem getArray_view_error {value : Argument} {e : PyError} (hkind : ref.store = kind)
    (hid : V.client.objectID ref.objectId = .ok o)
    (hget : V.client.get o (clientWorld w) = .ok value v)
    (hview : viewObject R ref value = .error e) :
    getArray V R ref w = .error e (withClient w v) :=
  (getArray_run hkind hid hget).trans (bind_error (fromExcept_eq_error.mpr ⟨hview, rfl⟩) _)

/-- For a reference that `from_manifest` accepts, and a C-contiguous array with at least one axis
under its ID, `get_array` returns the array that the reference denotes or raises `BlobStoreError`
if and only if the reference is resolvable. -/
theorem getArray_safe_iff {j : Json} (hfrom : BlobRef.fromManifest R j = .ok ref)
    (hkind : ref.store = kind) (hid : V.client.objectID ref.objectId = .ok o)
    (hget : V.client.get o (clientWorld w) = .ok (.array value writeable) v)
    (hcontiguous : value.isCContiguous = true) (haxes : value.shape ≠ []) :
    ((∃ array w', getArray V R ref w = .ok array w' ∧ Resolves R ref value array) ∨
      ∃ message w', getArray V R ref w = .error (.blobStoreError message) w') ↔
      Resolvable R ref value := by
  have hcheck := BlobRef.check_of_fromManifest hfrom
  obtain ⟨dtype, dims, hwell⟩ := BlobRef.check_wellFormed hcheck
  constructor
  · rintro (⟨array, w', hrun, hresolves⟩ | ⟨message, w', hrun⟩)
    · obtain ⟨-, o', value', v', hid', hget', hview, -⟩ := getArray_ok hrun
      cases hid.symm.trans hid'
      cases hget.symm.trans hget'
      exact resolvable_of_view hcheck hview hresolves
    · intro hinside
      cases hview : viewObject R ref (.array value writeable) with
      | ok array =>
        obtain ⟨w'', hok, -⟩ := getArray_view_ok hkind hid hget hview
        cases hok.symm.trans hrun
      | error e =>
        cases (getArray_view_error hkind hid hget hview).symm.trans hrun
        exact absurd hview (viewObject_error hcontiguous hinside hwell.dtype_str)
  · intro hresolvable
    by_cases hinside : InBounds ref value
    · obtain ⟨array, hview, hresolves⟩ :=
        viewObject_resolves hcheck hcontiguous haxes hinside hresolvable
      obtain ⟨w', hrun, -⟩ := getArray_view_ok hkind hid hget hview
      exact .inl ⟨array, w', hrun, hresolves⟩
    · exact .inr ⟨_, _, getArray_view_error hkind hid hget
        (viewObject_outside hcontiguous hinside)⟩

end Get

/-! ## Getting what was put -/

section Put
variable {a value : NdArray} {writeable : Bool} {w : World (State C)} {v v' : World C} {o : O}

theorem ascontiguousContent_shape_prod (m : Mem) (a : NdArray) :
    (ascontiguousContent m a).shape.prod = a.size := by
  unfold ascontiguousContent
  dsimp only
  split
  · next hnil => rw [NdArray.size, hnil, List.prod_singleton, List.prod_nil]
  · rfl

theorem refForObject_wellFormed (hsupported : Supported R a) (m : Mem) (o : O) :
    (refForObject V o (ascontiguousContent m a) 0).WellFormed R (.plain a.dtype)
      (ascontiguousContent m a).shape where
  offset_nonneg := le_rfl
  shape := rfl
  dtype_str := hsupported.dtype_str
  hasobject := (validateNdarray_eq_ok.mp hsupported.valid).1
  hasfields := (validateNdarray_eq_ok.mp hsupported.valid).2
  nbytes := by
    rw [ascontiguousContent_shape_prod, Nat.mul_comm]
    exact congrArg Nat.cast (NdArray.tobytes_length m a)

/-- An array whose key is not registered comes back as `np.ascontiguousarray` has made it. -/
theorem get_put (hsupported : Supported R a) (hmiss : w.store.resolvedRefs (key a) = none)
    (hput : V.client.put (ascontiguousContent w.mem a) V.persistOnPut (clientWorld w) = .ok o v)
    (hid : V.client.objectID (V.client.repr o) = .ok o)
    (hget : V.client.get o v = .ok (.array value writeable) v')
    (hcontiguous : value.isCContiguous = true)
    (hcontent : value.content v'.mem = ascontiguousContent w.mem a) :
    ∃ ref w₁ b w₂, putArray V a w = .ok ref w₁ ∧ getArray V R ref w₁ = .ok b w₂ ∧
      b.content w₂.mem = ascontiguousContent w.mem a := by
  have hdtype : value.dtype = a.dtype := congrArg NdArray.Content.dtype hcontent
  have hshape : value.shape = (ascontiguousContent w.mem a).shape :=
    congrArg NdArray.Content.shape hcontent
  have hbytes : value.tobytes v'.mem = a.tobytes w.mem := congrArg NdArray.Content.bytes hcontent
  have hnbytes : value.nbytes = a.nbytes := by
    rw [← NdArray.tobytes_length v'.mem value, hbytes, NdArray.tobytes_length]
  have hok : ShapeOk a.dtype.itemsize (ascontiguousContent w.mem a).shape := by
    rw [← hdtype, ← hshape]
    exact value.shape_ok
  have haxes : value.shape ≠ [] := by
    rw [hshape, ascontiguousContent]
    dsimp only
    split
    · simp
    · next hne => exact hne
  have hobject : value.dtype.hasobject = false := by
    rw [hdtype]
    exact (validateNdarray_eq_ok.mp hsupported.valid).1
  have hwell := refForObject_wellFormed (V := V) hsupported w.mem o
  have hinside : InBounds (refForObject V o (ascontiguousContent w.mem a) 0) value := by
    refine ⟨le_rfl, ?_⟩
    show (0 : ℤ) + (a.tobytes w.mem).length ≤ value.nbytes
    rw [NdArray.tobytes_length, hnbytes, zero_add]
  have hview : viewObject R (refForObject V o (ascontiguousContent w.mem a) 0)
      (.array value writeable) = .ok (.cArray (value.data + 0) a.dtype _ hok) :=
    viewObject_plain hwell hsupported.itemsize_pos hok hcontiguous hobject haxes hinside
  have hputs : putArray V a w =
      .ok (refForObject V o (ascontiguousContent w.mem a) 0) (withClient w v) :=
    (putArray_missed hsupported.valid hmiss).trans ((bind_ok (inClient_ok hput) _).trans rfl)
  have hget' : V.client.get o (clientWorld (withClient w v)) = .ok (.array value writeable) v' :=
    hget
  obtain ⟨w₂, hrun, hmem⟩ := getArray_view_ok rfl hid hget' hview
  refine ⟨_, _, _, w₂, hputs, hrun, ?_⟩
  have hsize : (NdArray.cArray (value.data + 0) a.dtype _ hok).nbytes = a.nbytes :=
    congrArg (· * a.dtype.itemsize) (ascontiguousContent_shape_prod w.mem a)
  have hread : (NdArray.cArray (value.data + 0) a.dtype _ hok).tobytes w₂.mem = a.tobytes w.mem := by
    rw [NdArray.tobytes_contiguous _ (NdArray.cArray_isCContiguous ..), hsize, hmem, ← hbytes,
      NdArray.tobytes_contiguous _ hcontiguous, hnbytes]
    exact congrArg (v'.mem.read · a.nbytes) (add_zero value.data)
  rw [NdArray.content, hread]
  rfl

/-- `get_array(put_array(a))` has dtype, shape and elements of `a`, as an inline reference to `a`
has, if and only if `a` has an axis. -/
theorem get_put_iff (hsupported : Supported R a) (hmiss : w.store.resolvedRefs (key a) = none)
    (hput : V.client.put (ascontiguousContent w.mem a) V.persistOnPut (clientWorld w) = .ok o v)
    (hid : V.client.objectID (V.client.repr o) = .ok o)
    (hget : V.client.get o v = .ok (.array value writeable) v')
    (hcontiguous : value.isCContiguous = true)
    (hcontent : value.content v'.mem = ascontiguousContent w.mem a) :
    (∃ ref w₁ b w₂, putArray V a w = .ok ref w₁ ∧ getArray V R ref w₁ = .ok b w₂ ∧
      b.content w₂.mem = a.content w.mem) ↔ a.shape ≠ [] := by
  obtain ⟨ref, w₁, b, w₂, hputs, hgets, hb⟩ :=
    get_put hsupported hmiss hput hid hget hcontiguous hcontent
  constructor
  · rintro ⟨ref', w₁', b', w₂', hputs', hgets', hb'⟩ hnil
    cases hputs.symm.trans hputs'
    cases hgets.symm.trans hgets'
    have hshape := congrArg NdArray.Content.shape (hb.symm.trans hb')
    simp [ascontiguousContent, NdArray.content, hnil] at hshape
  · intro haxes
    refine ⟨ref, w₁, b, w₂, hputs, hgets, ?_⟩
    rw [hb, ascontiguousContent, if_neg haxes]
    rfl

end Put

/-! ## With the client in memory -/

section Fake

theorem fakeClient_get {w : World (List (Option NdArray))} {o : ℕ} {value : NdArray}
    (h : w.store[o]? = some (some value)) :
    fakeStore.client.get o w = .ok (.array value false) w := by
  dsimp only [fakeStore, fakeClient]
  rw [h]

theorem fakeClient_get_put (a : NdArray) (w : World (State (List (Option NdArray)))) :
    ∃ o v value, fakeStore.client.put (ascontiguousContent w.mem a) fakeStore.persistOnPut
        (clientWorld w) = .ok o v ∧
      fakeStore.client.get o v = .ok (.array value false) v ∧ value.isCContiguous = true ∧
      value.content v.mem = ascontiguousContent w.mem a := by
  have hshape := ascontiguousContent_shapeOk w.mem a
  obtain ⟨p, hp⟩ : ∃ p : ℤ, p = 2 ^ 20 * (w.store.client.length + 1) := ⟨_, rfl⟩
  have hstored : mkArray p a.dtype (ascontiguousContent w.mem a).shape =
      .ok (.cArray p a.dtype _ hshape) := mkArray_eq_ok.mpr ⟨hshape, rfl⟩
  have hput : fakeStore.client.put (ascontiguousContent w.mem a) fakeStore.persistOnPut
      (clientWorld w) = .ok w.store.client.length ⟨w.mem.write p (a.tobytes w.mem), w.live,
        w.store.client ++ [some (.cArray p a.dtype _ hshape)]⟩ := by
    subst hp
    have hdtype : (ascontiguousContent w.mem a).dtype = a.dtype := rfl
    dsimp only [fakeStore, fakeClient, clientWorld]
    rw [hdtype, hstored]
    rfl
  have hsize : (NdArray.cArray p a.dtype _ hshape).nbytes = (a.tobytes w.mem).length := by
    rw [NdArray.tobytes_length]
    exact congrArg (· * a.dtype.itemsize) (ascontiguousContent_shape_prod w.mem a)
  refine ⟨_, _, .cArray p a.dtype _ hshape, hput, fakeClient_get List.getElem?_concat_length,
    NdArray.cArray_isCContiguous .., ?_⟩
  rw [NdArray.content, NdArray.tobytes_contiguous _ (NdArray.cArray_isCContiguous ..), hsize]
  exact congrArg (NdArray.Content.mk a.dtype _) (Mem.read_write_self ..)

theorem get_put_iff_oneElement :
    (∃ ref w₁ b w₂, putArray fakeStore oneElement newWorld = .ok ref w₁ ∧
      getArray fakeStore oneArrayRuntime ref w₁ = .ok b w₂ ∧
      b.content w₂.mem = oneElement.content newWorld.mem) ↔ oneElement.shape ≠ [] := by
  obtain ⟨o, v, value, hput, hget, hcontiguous, hcontent⟩ := fakeClient_get_put oneElement newWorld
  exact get_put_iff ⟨rfl, by decide, rfl⟩ rfl hput (fakeClient_lawful.objectID_repr o) hget
    hcontiguous hcontent

/-- A `float64` array without axes. -/
def zeroDim : NdArray := .cArray 0 float64 [] (by decide)

/-- It comes back with one axis. -/
theorem zeroDim_reshaped : ∃ ref w₁ b w₂, putArray fakeStore zeroDim newWorld = .ok ref w₁ ∧
    getArray fakeStore oneArrayRuntime ref w₁ = .ok b w₂ ∧ zeroDim.shape = [] ∧ b.shape = [1] := by
  obtain ⟨o, v, value, hput, hget, hcontiguous, hcontent⟩ := fakeClient_get_put zeroDim newWorld
  obtain ⟨ref, w₁, b, w₂, hputs, hgets, hb⟩ := get_put (R := oneArrayRuntime) ⟨rfl, by decide, rfl⟩
    rfl hput (fakeClient_lawful.objectID_repr o) hget hcontiguous hcontent
  exact ⟨ref, w₁, b, w₂, hputs, hgets, rfl, congrArg NdArray.Content.shape hb⟩

theorem getArray_safe_iff_held :
    ((∃ array w', getArray fakeStore heldRuntime heldRef (fakeWorld oneArrayWorld.mem oneElement) =
        .ok array w' ∧ Resolves heldRuntime heldRef oneElement array) ∨
      ∃ message w', getArray fakeStore heldRuntime heldRef
        (fakeWorld oneArrayWorld.mem oneElement) = .error (.blobStoreError message) w') ↔
      Resolvable heldRuntime heldRef oneElement :=
  getArray_safe_iff (j := heldRef.toManifest) rfl rfl rfl rfl (by decide) (by decide)

/-- A reference to no bytes, of a dtype without size. -/
def voidRef : BlobRef := ⟨"vineyard", "o", 0, 0, "|V0", []⟩

/-- `from_manifest` accepts it, and `get_array` divides by the item size. -/
theorem voidRef_divides : BlobRef.fromManifest heldRuntime voidRef.toManifest = .ok voidRef ∧
    ∃ w', getArray fakeStore heldRuntime voidRef (fakeWorld oneArrayWorld.mem oneElement) =
      .error (.zeroDivisionError "integer division or modulo by zero") w' :=
  ⟨rfl, _, rfl⟩

end Fake
end Npb.Vineyard
