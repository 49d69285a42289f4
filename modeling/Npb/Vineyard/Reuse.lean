import Npb.Vineyard.Runs
import Npb.Numpy.Elements
import Npb.Codec.Containment

/-! # Reusing a resolved reference

The table of resolved references outlives what it says: a view with other strides has the same key
(`reuse_sound_iff`), and deleting an object leaves its entries behind (`put_alive_iff`). -/

namespace Npb.Vineyard
set_option autoImplicit false
open Effects Numpy

variable {O C : Type}

/-! ## The view of a reference -/

theorem byteView_ok {value : NdArray} {bytes : Buffer} (h : byteView value = .ok bytes) :
    value.dtype.hasobject = false ∧ bytes.base = value.data := by
  unfold byteView at h
  split at h
  · cases h
  next hobject =>
  split at h
  · cases h
  · cases h
    exact ⟨by simpa using hobject, rfl⟩

theorem viewObject_ok {R : Runtime} {ref : BlobRef} {v : Argument} {array : NdArray}
    (h : viewObject R ref v = .ok array) : ∃ value writeable dtype,
      v = .array value writeable ∧ value.isCContiguous = true ∧ 0 ≤ ref.offset ∧
      ref.offset + ref.nbytes ≤ value.nbytes ∧ R.dtype (.leaf (.str ref.dtype)) = .ok dtype ∧
      dtype.itemsize ≠ 0 ∧
      ((ref.offset = 0 ∧ .plain value.dtype = dtype ∧ reshape value ref.shape = .ok array) ∨
        ∃ bytes flat, byteView value = .ok bytes ∧
          frombuffer bytes dtype (ref.nbytes / dtype.itemsize) ref.offset = .ok flat ∧
          reshape flat ref.shape = .ok array) := by
  cases v with
  | notArray => cases h
  | array value writeable =>
    unfold viewObject at h
    rw [raiseIf_bind_eq_ok] at h
    obtain ⟨hcontiguous, h₁⟩ := h
    dsimp only at h₁
    rw [raiseIf_bind_eq_ok] at h₁
    obtain ⟨hbounds, h₂⟩ := h₁
    obtain ⟨dtype, hdtype, h₃⟩ := except_bind_eq_ok.mp h₂
    rw [raiseIf_bind_eq_ok] at h₃
    obtain ⟨hitem, h₄⟩ := h₃
    rw [Bool.not_eq_false] at hcontiguous
    refine ⟨value, writeable, dtype, rfl, hcontiguous, by omega, by omega, hdtype, hitem, ?_⟩
    split at h₄
    · next hwhole => exact .inl ⟨hwhole.1, hwhole.2.2, h₄⟩
    · obtain ⟨bytes, hbytes, h₅⟩ := except_bind_eq_ok.mp h₄
      obtain ⟨flat, hflat, h₆⟩ := except_bind_eq_ok.mp h₅
      exact .inr ⟨bytes, flat, hbytes, hflat, h₆⟩

theorem reshape_isCContiguous {a array : NdArray} {shape : List ℤ}
    (h : reshape a shape = .ok array) : array.isCContiguous = true := by
  unfold reshape at h
  split at h
  · obtain ⟨hshape, rfl⟩ := mkArray_eq_ok.mp h
    exact NdArray.cArray_isCContiguous ..
  · cases h

theorem viewObject_isCContiguous {R : Runtime} {ref : BlobRef} {v : Argument} {array : NdArray}
    (h : viewObject R ref v = .ok array) : array.isCContiguous = true := by
  obtain ⟨value, writeable, dtype, -, -, -, -, -, -, ⟨-, -, hview⟩ | ⟨bytes, flat, -, -, hview⟩⟩ :=
    viewObject_ok h
  · exact reshape_isCContiguous hview
  · exact reshape_isCContiguous hview

/-! ## Entries of the table -/

section Table
variable {V : VineyardStore O C} {R : Runtime} {objects : C → O → Option Argument}
  {used : C → O → Prop} {w w' : World (State C)} {e : Event}

theorem Denotes.mono {ref : BlobRef} {array : NdArray} (h : Denotes V R objects w ref array)
    (hkept : ∀ o v, objects w.store.client o = some v → objects w'.store.client o = some v) :
    Denotes V R objects w' ref array := by
  obtain ⟨o, value, hid, hobject, hview⟩ := h
  exact ⟨o, value, hid, hkept o value hobject, hview⟩

theorem Denotes.unique {ref : BlobRef} {a b : NdArray} (ha : Denotes V R objects w ref a)
    (hb : Denotes V R objects w ref b) : a = b := by
  obtain ⟨o, value, hid, hobject, hview⟩ := ha
  obtain ⟨o', value', hid', hobject', hview'⟩ := hb
  cases hid.symm.trans hid'
  cases hobject.symm.trans hobject'
  cases hview.symm.trans hview'
  rfl

variable [DecidableEq O]

theorem Effect.kept (hV : V.client.Lawful objects used) (h : Effect V R objects used e w w')
    (he : ∀ ref, e ≠ .delete ref) (o : O) (v : Argument)
    (hv : objects w.store.client o = some v) : objects w'.store.client o = some v := by
  cases h with
  | same hobjects htable => rwa [hobjects]
  | resolved ref array he' hget hdenotes hobjects htable => rwa [hobjects]
  | removed ref o' he' hid hobjects htable => exact absurd he' (he ref)
  | created array o' v' he' hfresh hobjects htable =>
    have hne : o ≠ o' := by
      rintro rfl
      exact hfresh (hV.used_of_object _ _ _ hv)
    rwa [hobjects, Function.update_of_ne hne]

/-- Every entry is the key of the array its reference denotes. -/
def TableSound (V : VineyardStore O C) (R : Runtime) (objects : C → O → Option Argument)
    (w : World (State C)) : Prop :=
  ∀ k ref, w.store.resolvedRefs k = some ref →
    ∃ array, Denotes V R objects w ref array ∧ key array = k

theorem TableSound.step (hV : V.client.Lawful objects used) (h : TableSound V R objects w)
    (he : ∀ ref, e ≠ .delete ref) (hstep : Step V R w e w') : TableSound V R objects w' := by
  obtain ⟨heffect, -⟩ := perform_effect (R := R) hV e w
  rw [← show w' = perform V R e w from hstep] at heffect
  have hkept := heffect.kept hV he
  have hold : ∀ k ref, w.store.resolvedRefs k = some ref →
      ∃ array, Denotes V R objects w' ref array ∧ key array = k := by
    intro k ref hk
    obtain ⟨array, hdenotes, hkey⟩ := h k ref hk
    exact ⟨array, hdenotes.mono hkept, hkey⟩
  intro k ref hk
  cases heffect with
  | same hobjects htable => exact hold k ref (by rwa [htable] at hk)
  | created array o v he' hfresh hobjects htable => exact hold k ref (by rwa [htable] at hk)
  | removed ref' o he' hid hobjects htable => exact absurd he' (he ref')
  | resolved ref' array he' hget hdenotes hobjects htable =>
    rw [htable] at hk
    by_cases hkey : k = key array
    · rw [hkey, Function.update_self] at hk
      cases hk
      exact ⟨array, hdenotes.mono hkept, hkey.symm⟩
    · rw [Function.update_of_ne hkey] at hk
      exact hold k ref hk

theorem TableSound.run (hV : V.client.Lawful objects used) {w₀ : World (State C)}
    (hnew : ∀ k, w₀.store.resolvedRefs k = none) {events : List Event}
    (hlive : ∀ ref, Event.delete ref ∉ events) (hrun : Run (Step V R) w₀ events w) :
    TableSound V R objects w := by
  refine hrun.history (I := fun events w => (∀ ref, Event.delete ref ∉ events) →
    TableSound V R objects w) ?_ ?_ hlive
  · intro _ k ref hk
    rw [hnew k] at hk
    cases hk
  · intro events e w w' _ hsound hstep hnone
    refine (hsound fun ref href => hnone ref (List.mem_append_left _ href)).step hV ?_ hstep
    rintro ref rfl
    exact hnone ref (List.mem_append_right _ (List.mem_singleton_self _))

/-! ## Soundness of reuse -/

/-- While no object is deleted, an array whose key is registered is not stored again, and what the
returned reference denotes has the array's shape and elements exactly when the array is
C-contiguous (or its elements hold no bytes). -/
theorem reuse_sound_iff (hV : V.client.Lawful objects used) {w₀ : World (State C)}
    (hnew : ∀ k, w₀.store.resolvedRefs k = none) {events : List Event}
    (hlive : ∀ ref, Event.delete ref ∉ events) (hrun : Run (Step V R) w₀ events w)
    {array : NdArray} (hvalid : validateArray array = .ok ()) {ref : BlobRef}
    (hhit : w.store.resolvedRefs (key array) = some ref) :
    putArray V array w = .ok ref w ∧ ∃ resolved, Denotes V R objects w ref resolved ∧
      (array.SameElements resolved ↔
        array.isCContiguous = true ∨ array.dtype.itemsize = 0) := by
  refine ⟨putArray_reused hvalid hhit, ?_⟩
  obtain ⟨resolved, hdenotes, hkey⟩ := TableSound.run hV hnew hlive hrun _ _ hhit
  obtain ⟨o, value, -, -, hview⟩ := id hdenotes
  obtain ⟨hdata, hrest⟩ := Prod.mk.inj hkey
  obtain ⟨hnbytes, hrest⟩ := Prod.mk.inj hrest
  obtain ⟨hdtype, hshape⟩ := Prod.mk.inj hrest
  exact ⟨resolved, hdenotes, NdArray.sameElements_iff (viewObject_isCContiguous hview) hdata.symm
    hnbytes.symm hdtype.symm hshape.symm⟩

section Square

/-- A square array of four bytes, and the transposed view of it. -/
def square : NdArray := .cArray 4096 uint8 [2, 2] (by decide)

def transposed : NdArray := ⟨4096, uint8, [2, 2], [1, 2], rfl, by decide⟩

def squareRef : BlobRef := ⟨"vineyard", "o", 0, 4, "|u1", [2, 2]⟩

def squareRuntime : Runtime := .ofDocument (.dict []) "" 4096

/-- The bytes 0, 1, 2, 3 at the square. -/
def squareWorld : World (State (List (Option NdArray))) :=
  fakeWorld (fun x => UInt8.ofInt (x - 4096)) square

/-- The same world once the square has been resolved. -/
def squareResolved : World (State (List (Option NdArray))) :=
  perform fakeStore squareRuntime (.get squareRef) squareWorld

theorem square_run :
    Run (Step fakeStore squareRuntime) squareWorld [.get squareRef] squareResolved :=
  .single rfl

theorem squareResolved_hit : squareResolved.store.resolvedRefs (key square) = some squareRef :=
  rfl

theorem square_live (ref : BlobRef) : Event.delete ref ∉ [Event.get squareRef] := by simp

theorem reuse_sound_iff_square :
    putArray fakeStore square squareResolved = .ok squareRef squareResolved ∧
      ∃ resolved, Denotes fakeStore squareRuntime fakeObjects squareResolved squareRef resolved ∧
        (square.SameElements resolved ↔
          square.isCContiguous = true ∨ square.dtype.itemsize = 0) :=
  reuse_sound_iff fakeClient_lawful (fun _ => rfl) square_live square_run rfl squareResolved_hit

/-- Putting the transposed view of a resolved array publishes the array that was resolved. -/
theorem transposed_reused :
    Run (Step fakeStore squareRuntime) squareWorld [.get squareRef] squareResolved ∧
      putArray fakeStore transposed squareResolved = .ok squareRef squareResolved ∧
      Denotes fakeStore squareRuntime fakeObjects squareResolved squareRef square ∧
      transposed.elements squareResolved.mem = [[0], [2], [1], [3]] ∧
      square.elements squareResolved.mem = [[0], [1], [2], [3]] :=
  ⟨square_run, rfl, ⟨0, .array square false, rfl, rfl, rfl⟩, by decide, by decide⟩

end Square

/-! ## Dead references -/

/-- An earlier `delete` call of the run has removed the object. -/
def Removed (V : VineyardStore O C) (R : Runtime) (objects : C → O → Option Argument)
    (w₀ : World (State C)) (events : List Event) (o : O) : Prop :=
  ∃ past ref later w v, events = past ++ .delete ref :: later ∧ Run (Step V R) w₀ past w ∧
    V.client.objectID ref.objectId = .ok o ∧ objects w.store.client o = some v ∧
    objects (perform V R (.delete ref) w).store.client o = none

omit [DecidableEq O] in
theorem Removed.later {w₀ : World (State C)} {events : List Event} {o : O}
    (h : Removed V R objects w₀ events o) (e : Event) :
    Removed V R objects w₀ (events ++ [e]) o := by
  obtain ⟨past, ref, later, w, v, rfl, hrest⟩ := h
  exact ⟨past, ref, later ++ [e], w, v, by simp, hrest⟩

omit [DecidableEq O] in
theorem Removed.snoc {w₀ : World (State C)} {events : List Event} {o : O}
    (hrun : Run (Step V R) w₀ events w) (h : Removed V R objects w₀ (events ++ [e]) o) :
    Removed V R objects w₀ events o ∨ ∃ ref v, e = .delete ref ∧
      objects w.store.client o = some v ∧
      objects (perform V R e w).store.client o = none := by
  obtain ⟨past, ref, later, w₁, v, hevents, hpast, hid, hbefore, hafter⟩ := h
  obtain rfl | ⟨later', e', rfl⟩ := List.eq_nil_or_concat later
  · obtain ⟨rfl, he⟩ := List.append_inj' hevents rfl
    cases he
    obtain rfl := hrun.functional (step_functional V R) hpast
    exact .inr ⟨ref, v, rfl, hbefore, hafter⟩
  · rw [List.concat_eq_append, ← List.cons_append, ← List.append_assoc] at hevents
    obtain ⟨rfl, -⟩ := List.append_inj' hevents rfl
    exact .inl ⟨past, ref, later', w₁, v, rfl, hpast, hid, hbefore, hafter⟩

/-- The objects of the entries were there once, and what has been removed does not come back. -/
structure Accounted (V : VineyardStore O C) (R : Runtime) (objects : C → O → Option Argument)
    (used : C → O → Prop) (w₀ : World (State C)) (events : List Event) (w : World (State C)) :
    Prop where
  entries : ∀ k ref, w.store.resolvedRefs k = some ref → ∃ o,
    V.client.objectID ref.objectId = .ok o ∧ used w.store.client o ∧
    ((∃ v, objects w.store.client o = some v) ∨ Removed V R objects w₀ events o)
  removed : ∀ o, Removed V R objects w₀ events o →
    used w.store.client o ∧ objects w.store.client o = none

theorem Accounted.step (hV : V.client.Lawful objects used) {w₀ : World (State C)}
    {events : List Event} (hrun : Run (Step V R) w₀ events w)
    (h : Accounted V R objects used w₀ events w) (hstep : Step V R w e w') :
    Accounted V R objects used w₀ (events ++ [e]) w' := by
  obtain ⟨heffect, hused⟩ := perform_effect (R := R) hV e w
  obtain rfl : w' = perform V R e w := hstep
  constructor
  · intro k ref hk
    have hold : ∀ k ref, w.store.resolvedRefs k = some ref → ∃ o,
        V.client.objectID ref.objectId = .ok o ∧ used (perform V R e w).store.client o ∧
        ((∃ v, objects (perform V R e w).store.client o = some v) ∨
          Removed V R objects w₀ (events ++ [e]) o) := by
      intro k ref hk
      obtain ⟨o, hid, huse, hlive⟩ := h.entries k ref hk
      refine ⟨o, hid, hused o huse, ?_⟩
      obtain ⟨v, hv⟩ | hremoved := hlive
      · cases hafter : objects (perform V R e w).store.client o with
        | some v' => exact .inl ⟨v', rfl⟩
        | none =>
          right
          cases heffect with
          | removed ref' o' he hid' hobjects htable =>
            subst he
            have ho : o = o' := by
              by_contra hne
              rw [hobjects, Function.update_of_ne hne, hv] at hafter
              cases hafter
            subst ho
            exact ⟨events, ref', [], w, v, rfl, hrun, hid', hv, hafter⟩
          | same hobjects htable =>
            rw [hobjects, hv] at hafter
            cases hafter
          | resolved ref' array he hget hdenotes hobjects htable =>
            rw [hobjects, hv] at hafter
            cases hafter
          | created array o' v' he hfresh hobjects htable =>
            have hne : o ≠ o' := by
              rintro rfl
              exact hfresh huse
            rw [hobjects, Function.update_of_ne hne, hv] at hafter
            cases hafter
      · exact .inr (hremoved.later e)
    cases heffect with
    | same hobjects htable => exact hold k ref (by rwa [htable] at hk)
    | created array o v he hfresh hobjects htable => exact hold k ref (by rwa [htable] at hk)
    | removed ref' o he hid hobjects htable => exact hold k ref (by rwa [htable] at hk)
    | resolved ref' array he hget hdenotes hobjects htable =>
      rw [htable] at hk
      by_cases hkey : k = key array
      · rw [hkey, Function.update_self] at hk
        cases hk
        obtain ⟨o, value, hid, hobject, -⟩ := hdenotes
        refine ⟨o, hid, hused o (hV.used_of_object _ _ _ hobject), .inl ⟨value, ?_⟩⟩
        rwa [hobjects]
      · rw [Function.update_of_ne hkey] at hk
        exact hold k ref hk
  · intro o hremoved
    obtain hearlier | ⟨ref, v, -, hbefore, hafter⟩ := hremoved.snoc hrun
    · obtain ⟨huse, hnone⟩ := h.removed o hearlier
      refine ⟨hused o huse, ?_⟩
      cases heffect with
      | same hobjects htable => rwa [hobjects]
      | resolved ref' array he hget hdenotes hobjects htable => rwa [hobjects]
      | removed ref' o' he hid hobjects htable =>
        rw [hobjects]
        by_cases ho : o = o'
        · rw [ho, Function.update_self]
        · rwa [Function.update_of_ne ho]
      | created array o' v' he hfresh hobjects htable =>
        have hne : o ≠ o' := by
          rintro rfl
          exact hfresh huse
        rwa [hobjects, Function.update_of_ne hne]
    · exact ⟨hused o (hV.used_of_object _ _ _ hbefore), hafter⟩

theorem Accounted.run (hV : V.client.Lawful objects used) {w₀ : World (State C)}
    (hnew : ∀ k, w₀.store.resolvedRefs k = none) {events : List Event}
    (hrun : Run (Step V R) w₀ events w) : Accounted V R objects used w₀ events w := by
  refine hrun.history ⟨?_, ?_⟩ fun events e w w' hrun h hstep => h.step hV hrun hstep
  · intro k ref hk
    rw [hnew k] at hk
    cases hk
  · rintro o ⟨past, ref, later, w, v, hevents, -⟩
    exact absurd hevents (by simp)

/-- In every run, the reference `put_array` returns names an object that exists if and only if no
earlier `delete` call has removed the object of the entry it finds for the array. -/
theorem put_alive_iff (hV : V.client.Lawful objects used) {w₀ : World (State C)}
    (hnew : ∀ k, w₀.store.resolvedRefs k = none) {events : List Event}
    (hrun : Run (Step V R) w₀ events w) {array : NdArray} {ref : BlobRef}
    (hput : putArray V array w = .ok ref w') :
    Alive V objects w' ref ↔ ∀ existing o, w.store.resolvedRefs (key array) = some existing →
      V.client.objectID existing.objectId = .ok o → ¬ Removed V R objects w₀ events o := by
  have haccounted := Accounted.run hV hnew hrun
  obtain ⟨-, ⟨hhit, rfl⟩ | ⟨hmiss, o, v, hclient, rfl, rfl⟩⟩ := putArray_ok hput
  · obtain ⟨o, hid, -, hlive⟩ := haccounted.entries _ _ hhit
    constructor
    · rintro ⟨o', v, hid', hv⟩ existing o'' hhit' hid'' hremoved
      cases hhit.symm.trans hhit'
      cases hid'.symm.trans hid''
      rw [(haccounted.removed _ hremoved).2] at hv
      cases hv
    · intro hkept
      obtain ⟨v, hv⟩ | hremoved := hlive
      · exact ⟨o, v, hid, hv⟩
      · exact absurd hremoved (hkept ref o hhit hid)
  · obtain ⟨-, ⟨value, hobjects⟩, -⟩ := hV.put_ok _ _ _ _ _ hclient
    constructor
    · intro _ existing o' hhit
      rw [hmiss] at hhit
      cases hhit
    · intro _
      refine ⟨o, value, hV.objectID_repr o, ?_⟩
      change objects v.store o = some value
      rw [hobjects, Function.update_self]

section Deleted

theorem put_alive_iff_square :
    Alive fakeStore fakeObjects squareResolved squareRef ↔
      ∀ existing o, squareResolved.store.resolvedRefs (key square) = some existing →
        fakeStore.client.objectID existing.objectId = .ok o →
        ¬ Removed fakeStore squareRuntime fakeObjects squareWorld [.get squareRef] o :=
  put_alive_iff fakeClient_lawful (fun _ => rfl) square_run
    (show putArray fakeStore square squareResolved = .ok squareRef squareResolved from rfl)

/-- The world after the resolved square has been deleted. -/
def squareDeleted : World (State (List (Option NdArray))) :=
  perform fakeStore squareRuntime (.delete squareRef) squareResolved

/-- Putting a resolved array whose object has been deleted returns the reference of that object. -/
theorem deleted_reused :
    Run (Step fakeStore squareRuntime) squareWorld [.get squareRef, .delete squareRef]
        squareDeleted ∧
      putArray fakeStore square squareDeleted = .ok squareRef squareDeleted ∧
      ¬ Alive fakeStore fakeObjects squareDeleted squareRef := by
  refine ⟨square_run.snoc rfl, rfl, ?_⟩
  rintro ⟨o, v, hid, hv⟩
  cases hid
  cases hv

end Deleted
end Table
end Npb.Vineyard
