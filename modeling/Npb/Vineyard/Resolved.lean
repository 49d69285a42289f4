import Npb.Vineyard.Reuse

/-! # Putting back what was resolved

The array of a well-formed reference is the window of its object that the reference names
(`viewObject_window`). Objects that lie apart therefore never share a key, and an array that
`get_array` returned is put back without the client, whatever the store has resolved since
(`putArray_resolved`). -/

namespace Npb
set_option autoImplicit false
open Effects Numpy

/-- No dtype string names a block of structured elements. -/
def Runtime.PlainBlocks (R : Runtime) : Prop :=
  ∀ str base shape, R.dtype (.leaf (.str str)) = .ok (.subarray base shape) →
    base.hasfields = false

/-- A reference that `from_manifest` accepts. -/
structure BlobRef.WellFormed (R : Runtime) (ref : BlobRef) (dtype : NpDtype) (dims : List ℕ) :
    Prop where
  offset_nonneg : 0 ≤ ref.offset
  shape : ref.shape = dims.map fun d : ℕ => (d : ℤ)
  dtype_str : R.dtype (.leaf (.str ref.dtype)) = .ok dtype
  hasobject : dtype.hasobject = false
  hasfields : dtype.hasfields = false
  nbytes : ref.nbytes = (dtype.itemsize * dims.prod : ℕ)

theorem BlobRef.check_wellFormed {R : Runtime} {ref : BlobRef} (h : ref.check R = .ok ref) :
    ∃ dtype dims, ref.WellFormed R dtype dims := by
  unfold BlobRef.check at h
  rw [raiseIf_bind_eq_ok, raiseIf_bind_eq_ok, raiseIf_bind_eq_ok, raiseIf_bind_eq_ok] at h
  obtain ⟨-, -, hnonneg, hdims, h⟩ := h
  obtain ⟨dtype, hdtype, h⟩ := except_bind_eq_ok.mp h
  rw [raiseIf_bind_eq_ok, raiseIf_bind_eq_ok] at h
  obtain ⟨hplain, hnbytes, -⟩ := h
  have hshape : ∀ d ∈ ref.shape, 0 ≤ d := by simpa using hdims
  obtain ⟨dims, hdims⟩ := natCast_of_nonneg hshape
  rw [Bool.not_eq_true, Bool.or_eq_false_iff] at hplain
  refine ⟨dtype, dims, by omega, hdims, hdtype, hplain.1, hplain.2, ?_⟩
  rw [hdims, prod_natCast] at hnbytes
  rw [Nat.cast_mul]
  exact (not_not.mp hnbytes).symm

end Npb

namespace Npb.Vineyard
open Effects Numpy

variable {O C : Type}

/-! ## The window of a reference -/

theorem frombuffer_ok {b : Buffer} {dtype : NpDtype} {count offset : ℤ} {a : NdArray}
    (h : frombuffer b dtype count offset = .ok a) (hcount : 0 ≤ count) :
    elementsAt (b.base + offset) dtype count.toNat = .ok a := by
  unfold frombuffer at h
  rw [raiseIf_bind_eq_ok, raiseIf_bind_eq_ok, raiseIf_bind_eq_ok, raiseIf_bind_eq_ok] at h
  obtain ⟨-, -, -, -, h⟩ := h
  dsimp only at h
  rw [raiseIf_bind_eq_ok, raiseIf_bind_eq_ok, if_neg (by omega)] at h
  exact h.2.2

theorem elementsAt_dtype {data : ℤ} {dtype : NpDtype} {n : ℕ} {a : NdArray}
    (h : elementsAt data dtype n = .ok a) :
    dtype = .plain a.dtype ∨ ∃ shape, dtype = .subarray a.dtype shape := by
  cases dtype with
  | plain d =>
    obtain ⟨-, rfl⟩ := mkArray_eq_ok.mp h
    exact .inl rfl
  | subarray base shape =>
    obtain ⟨-, rfl⟩ := mkArray_eq_ok.mp h
    exact .inr ⟨shape, rfl⟩

/-- The array is the window of the object's memory that the reference names. -/
structure Window (ref : BlobRef) (value array : NdArray) : Prop where
  inside : 0 ≤ ref.offset ∧ ref.offset + ref.nbytes ≤ value.nbytes
  data : array.data = value.data + ref.offset
  nbytes : (array.nbytes : ℤ) = ref.nbytes
  shape : array.shape.map (fun d : ℕ => (d : ℤ)) = ref.shape
  valid : validateArray array = .ok ()

theorem reshape_nbytes {a b : NdArray} {dims : List ℕ}
    (h : reshape a (dims.map fun d : ℕ => (d : ℤ)) = .ok b) :
    b.data = a.data ∧ b.dtype = a.dtype ∧ b.shape = dims ∧ b.nbytes = a.nbytes := by
  obtain ⟨hprod, hshape, rfl⟩ := reshape_eq_ok.mp h
  refine ⟨rfl, rfl, rfl, ?_⟩
  rw [NdArray.nbytes, NdArray.nbytes, ← hprod]
  rfl

theorem viewObject_window {R : Runtime} {ref : BlobRef} {v : Argument} {array : NdArray}
    (hblocks : R.PlainBlocks) (hcheck : ref.check R = .ok ref)
    (h : viewObject R ref v = .ok array) : ∃ value writeable,
      v = .array value writeable ∧ value.isCContiguous = true ∧ Window ref value array := by
  obtain ⟨dtype, dims, hwell⟩ := BlobRef.check_wellFormed hcheck
  obtain ⟨value, writeable, dtype', hv, hcontiguous, hoffset, hroom, hdtype, hitem, hview⟩ :=
    viewObject_ok h
  cases hwell.dtype_str.symm.trans hdtype
  rw [hwell.shape] at hview
  have hobject := hwell.hasobject
  have hfields := hwell.hasfields
  have hnbytes := hwell.nbytes
  refine ⟨value, writeable, hv, hcontiguous, ?_⟩
  obtain ⟨hzero, rfl, hview⟩ | ⟨bytes, flat, hbytes, hflat, hview⟩ := hview
  · obtain ⟨hdata, hkind, hdims, -⟩ := reshape_nbytes hview
    refine ⟨⟨hoffset, hroom⟩, by omega, ?_, by rw [hdims, hwell.shape], ?_⟩
    · rw [hnbytes, NdArray.nbytes, NdArray.size, hdims, hkind, Nat.mul_comm]
      rfl
    · rw [validateArray, validateNdarray_eq_ok, hkind]
      exact ⟨hobject, hfields⟩
  · have hcount : ref.nbytes / dtype.itemsize = (dims.prod : ℤ) := by
      rw [hnbytes, ← Int.natCast_ediv, Nat.mul_div_cancel_left _ (Nat.pos_of_ne_zero hitem)]
    rw [hcount] at hflat
    have helements := frombuffer_ok hflat (Int.natCast_nonneg _)
    rw [Int.toNat_natCast, (byteView_ok hbytes).2] at helements
    obtain ⟨hdata, hcovered⟩ := elementsAt_eq_ok helements
    obtain ⟨hdata', hkind, hdims, hsame⟩ := reshape_nbytes hview
    refine ⟨⟨hoffset, hroom⟩, hdata'.trans hdata, ?_, by rw [hdims, hwell.shape], ?_⟩
    · rw [hnbytes, hsame, hcovered, Nat.mul_comm]
    · rw [validateArray, validateNdarray_eq_ok, hkind]
      obtain rfl | ⟨shape, rfl⟩ := elementsAt_dtype helements
      · exact ⟨hobject, hfields⟩
      · exact ⟨hobject, hblocks _ _ _ hdtype⟩

/-! ## Runs without deletions -/

section Runs
variable {V : VineyardStore O C} {R : Runtime} {objects : C → O → Option Argument}
  {used : C → O → Prop} [DecidableEq O] {w₀ w w' : World (State C)} {e : Event}
  {events : List Event}

theorem Step.effect (hV : V.client.Lawful objects used) (h : Step V R w e w') :
    Effect V R objects used e w w' := by
  obtain ⟨heffect, -⟩ := perform_effect (R := R) hV e w
  rwa [← show w' = perform V R e w from h] at heffect

theorem run_kept (hV : V.client.Lawful objects used) (hlive : ∀ ref, Event.delete ref ∉ events)
    (hrun : Run (Step V R) w events w') (o : O) (v : Argument)
    (hv : objects w.store.client o = some v) : objects w'.store.client o = some v := by
  refine hrun.history (I := fun events w' => (∀ ref, Event.delete ref ∉ events) →
    objects w'.store.client o = some v) (fun _ => hv) ?_ hlive
  intro events e w₁ w₂ _ hkept hstep hnone
  have hbefore := hkept fun ref href => hnone ref (List.mem_append_left _ href)
  refine (Step.effect hV hstep).kept hV ?_ o v hbefore
  rintro ref rfl
  exact hnone ref (List.mem_append_right _ (List.mem_singleton_self _))

theorem Effect.registered (h : Effect V R objects used e w w') {k : Key}
    (hk : (w.store.resolvedRefs k).isSome = true) :
    (w'.store.resolvedRefs k).isSome = true := by
  cases h with
  | same hobjects htable => rwa [htable]
  | created array o v he hfresh hobjects htable => rwa [htable]
  | removed ref o he hid hobjects htable => rwa [htable]
  | resolved ref array he hget hdenotes hobjects htable =>
    rw [htable]
    by_cases hkey : k = key array
    · rw [hkey, Function.update_self]
      rfl
    · rwa [Function.update_of_ne hkey]

theorem run_registered (hV : V.client.Lawful objects used) (hrun : Run (Step V R) w events w')
    {k : Key} (hk : (w.store.resolvedRefs k).isSome = true) :
    (w'.store.resolvedRefs k).isSome = true :=
  hrun.invariant (I := fun w => (w.store.resolvedRefs k).isSome = true)
    (fun _ _ _ hbefore hstep => (Step.effect hV hstep).registered hbefore) hk

theorem run_resolved (hV : V.client.Lawful objects used)
    (hnew : ∀ k, w₀.store.resolvedRefs k = none) (hrun : Run (Step V R) w₀ events w) {k : Key}
    {ref : BlobRef} (hk : w.store.resolvedRefs k = some ref) : Event.get ref ∈ events := by
  refine hrun.history (I := fun events w => ∀ k ref, w.store.resolvedRefs k = some ref →
    Event.get ref ∈ events) ?_ ?_ k ref hk
  · intro k ref hk
    rw [hnew k] at hk
    cases hk
  · intro events e w w' _ hold hstep k ref hk
    apply List.mem_append.mpr
    cases Step.effect hV hstep with
    | same hobjects htable => exact .inl (hold k ref (by rwa [htable] at hk))
    | created array o v he hfresh hobjects htable =>
      exact .inl (hold k ref (by rwa [htable] at hk))
    | removed ref' o he hid hobjects htable => exact .inl (hold k ref (by rwa [htable] at hk))
    | resolved ref' array he hget hdenotes hobjects htable =>
      rw [htable] at hk
      by_cases hkey : k = key array
      · rw [hkey, Function.update_self] at hk
        cases hk
        exact .inr (List.mem_singleton.mpr he.symm)
      · rw [Function.update_of_ne hkey] at hk
        exact .inl (hold k ref hk)

omit [DecidableEq O] in
theorem getArray_registered {ref : BlobRef} {array : NdArray}
    (hget : getArray V R ref w = .ok array w') :
    w'.store.resolvedRefs (key array) = some ref := by
  obtain ⟨-, o, value, v, -, -, -, rfl⟩ := getArray_ok hget
  exact Function.update_self ..

theorem getArray_denotes (hV : V.client.Lawful objects used) {ref : BlobRef} {array : NdArray}
    (hget : getArray V R ref w = .ok array w') : Denotes V R objects w' ref array := by
  obtain ⟨-, o, value, v, hid, hclient, hview, rfl⟩ := getArray_ok hget
  obtain ⟨hobjects, -⟩ := hV.get_keeps o (clientWorld w)
  rw [hclient] at hobjects
  refine ⟨o, value, hid, ?_, hview⟩
  show objects v.store o = some value
  rw [← hV.get_ok _ _ _ _ hclient]
  exact congrFun hobjects o

omit [DecidableEq O] in
theorem Denotes.valid (hblocks : R.PlainBlocks) {ref : BlobRef} {array : NdArray}
    (hcheck : ref.check R = .ok ref) (h : Denotes V R objects w ref array) :
    validateArray array = .ok () := by
  obtain ⟨o, v, -, -, hview⟩ := h
  obtain ⟨value, writeable, -, -, hwindow⟩ := viewObject_window hblocks hcheck hview
  exact hwindow.valid

/-! ## Objects apart -/

/-- No two objects share memory. -/
def Apart (objects : C → O → Option Argument) (c : C) : Prop :=
  ∀ o o' value writeable value' writeable', o ≠ o' →
    objects c o = some (.array value writeable) → objects c o' = some (.array value' writeable') →
    ∀ x, value.Touches x → ¬ value'.Touches x

/-- Well-formed references whose arrays have the same key name the same window of the same
object. -/
theorem Denotes.same_window (hblocks : R.PlainBlocks) (hapart : Apart objects w.store.client)
    {ref ref' : BlobRef} {array array' : NdArray} (hcheck : ref.check R = .ok ref)
    (hcheck' : ref'.check R = .ok ref') (h : Denotes V R objects w ref array)
    (h' : Denotes V R objects w ref' array') (hkey : key array' = key array)
    (hpos : 0 < ref.nbytes) :
    V.client.objectID ref'.objectId = V.client.objectID ref.objectId ∧
      ref'.offset = ref.offset ∧ ref'.nbytes = ref.nbytes ∧ ref'.shape = ref.shape := by
  obtain ⟨o, v, hid, hobject, hview⟩ := h
  obtain ⟨o', v', hid', hobject', hview'⟩ := h'
  obtain ⟨value, writeable, rfl, hcontiguous, hwindow⟩ := viewObject_window hblocks hcheck hview
  obtain ⟨value', writeable', rfl, hcontiguous', hwindow'⟩ :=
    viewObject_window hblocks hcheck' hview'
  obtain ⟨hdata, hrest⟩ := Prod.mk.inj hkey
  obtain ⟨hnbytes, hrest⟩ := Prod.mk.inj hrest
  obtain ⟨-, hshape⟩ := Prod.mk.inj hrest
  have hstart := hwindow.data
  have hstart' := hwindow'.data
  have hsize := hwindow.nbytes
  have hsize' := hwindow'.nbytes
  obtain ⟨hlow, hhigh⟩ := hwindow.inside
  obtain ⟨hlow', hhigh'⟩ := hwindow'.inside
  -- the first byte of the two windows lies in both objects
  have ho : o = o' := by
    by_contra hne
    refine hapart o o' _ _ _ _ hne hobject hobject' array.data ?_ ?_
    · rw [NdArray.touches_iff_contiguous hcontiguous]
      omega
    · rw [NdArray.touches_iff_contiguous hcontiguous']
      omega
  subst ho
  cases hobject.symm.trans hobject'
  refine ⟨hid'.trans hid.symm, by omega, by omega, ?_⟩
  rw [← hwindow.shape, ← hwindow'.shape, hshape]

/-- An array that `get_array` returned for a reference is put back as the same window of the same
object, by the store's table alone. -/
theorem putArray_resolved (hblocks : R.PlainBlocks) (hV : V.client.Lawful objects used)
    (hnew : ∀ k, w₀.store.resolvedRefs k = none) {past later : List Event} {ref : BlobRef}
    (hlive : ∀ ref', Event.delete ref' ∉ past ++ .get ref :: later)
    (hchecked : ∀ ref', Event.get ref' ∈ past ++ .get ref :: later → ref'.check R = .ok ref')
    {w₁ w₂ : World (State C)} {array : NdArray} (hpast : Run (Step V R) w₀ past w₁)
    (hget : getArray V R ref w₁ = .ok array w₂) (hlater : Run (Step V R) w₂ later w)
    (hapart : Apart objects w.store.client) (hpos : 0 < ref.nbytes) :
    ∃ ref', Event.get ref' ∈ past ++ .get ref :: later ∧
      (∀ K : Client O C, putArray ⟨K, V.persistOnPut⟩ array w = .ok ref' w) ∧
      V.client.objectID ref'.objectId = V.client.objectID ref.objectId ∧
      ref'.offset = ref.offset ∧ ref'.nbytes = ref.nbytes ∧ ref'.shape = ref.shape := by
  have hstep : Step V R w₁ (.get ref) w₂ := by
    show w₂ = finalState (getArray V R ref w₁)
    rw [hget, finalState_ok]
  have hrun : Run (Step V R) w₀ (past ++ .get ref :: later) w := by
    rw [List.append_cons]
    exact (hpast.snoc hstep).append hlater
  have hregistered : (w₂.store.resolvedRefs (key array)).isSome = true := by
    rw [getArray_registered hget]
    rfl
  obtain ⟨ref', hhit⟩ := Option.isSome_iff_exists.mp (run_registered hV hlater hregistered)
  have hdenotes : Denotes V R objects w ref array := by
    refine (getArray_denotes hV hget).mono (run_kept hV ?_ hlater)
    exact fun ref' href => hlive ref' (by simp [href])
  obtain ⟨array', hdenotes', hkey⟩ := TableSound.run hV hnew hlive hrun _ _ hhit
  have hevent := run_resolved hV hnew hrun hhit
  have hcheck := hchecked ref (by simp)
  have hvalid := hdenotes.valid hblocks hcheck
  refine ⟨ref', hevent, fun K => putArray_reused hvalid hhit, ?_⟩
  exact hdenotes.same_window hblocks hapart hcheck (hchecked ref' hevent) hdenotes' hkey hpos

end Runs
end Npb.Vineyard
