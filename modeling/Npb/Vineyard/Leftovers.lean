import Npb.Codec.Threshold
import Npb.Vineyard.Measuring

/-! # What a failed `encode` leaves in a store

The arrays over the threshold are put while the manifest is built, before `out` is looked at and
before the header is packed. When `encode` then raises, the store is as it was if and only if it
took none of them (`encode_failed_iff`). -/

namespace Npb
set_option autoImplicit false
open Effects Numpy

section Objects
variable {σ κ : Type} {R : Runtime} {model : Model} {blobStore : Option (BlobStore σ)}
  {externalizeMinBytes : Option ℤ} {objects : σ → Set κ} {holds takes : World σ → NdArray → Prop}

theorem encode_store_eq (out : Option Argument) (w : World σ) :
    (finalState (encode R model out blobStore externalizeMinBytes w)).store =
      (finalState (encodedSize R model blobStore externalizeMinBytes w)).store := by
  rw [encode_store, encodedSize, bind_run]
  cases analyzeModel R model blobStore externalizeMinBytes w <;> rfl

theorem encode_objects_iff (R : Runtime) (model : Model) (externalizeMinBytes : Option ℤ)
    (hstore : ∀ store, blobStore = some store → store.Storing objects holds takes)
    (out : Option Argument) (w : World σ) :
    objects (finalState (encode R model out blobStore externalizeMinBytes w)).store =
        objects w.store ↔
      Untaken holds takes w (model.putArrays blobStore externalizeMinBytes) := by
  rw [encode_store_eq]
  cases finalState_encodedSize R model blobStore externalizeMinBytes w with
  | inl hrun =>
    rw [hrun.1, hrun.2]
    exact iff_of_true rfl trivial
  | inr hrun =>
    rw [hrun.1, hrun.2]
    exact place_untaken_iff hstore model.tree.leaves ⟨w, [], 0⟩

/-- When `encode` raises, the store holds the objects it held before if and only if it took none of
the arrays that the traversal handed to it. -/
theorem encode_failed_iff
    (hstore : ∀ store, blobStore = some store → store.Storing objects holds takes)
    {out : Option Argument} {w w' : World σ} {e : PyError}
    (h : encode R model out blobStore externalizeMinBytes w = .error e w') :
    objects w'.store = objects w.store ↔
      Untaken holds takes w (model.putArrays blobStore externalizeMinBytes) := by
  have hiff := encode_objects_iff R model externalizeMinBytes hstore out w
  rwa [h, finalState_error] at hiff

end Objects

/-! ## With a Vineyard store -/

namespace Vineyard

/-- A caller's buffer of one byte. -/
def smallBuffer : Buffer := spareBuffer.take 1

/-- Encoding a model with one array over the threshold into the small buffer. -/
def encodeSmall : EStateM.Result PyError (World (State (List (Option NdArray)))) Buffer :=
  encode heldRuntime oneArray (some (.array smallBuffer.toArray true))
    (some (blobStore fakeStore heldRuntime)) (some 0) newWorld

theorem encodeSmall_error : ∃ w', encodeSmall =
      .error (.bufferTooSmallError "output buffer too small: need 65,536 bytes, got 1") w' ∧
    objectsOf fakeObjects newWorld.store = ∅ ∧ 0 ∈ objectsOf fakeObjects w'.store := by
  obtain ⟨pt, s, hplace, hcursor, hstored⟩ : ∃ pt s,
      placeTree (some (blobStore fakeStore heldRuntime)) (some 0) oneArray.tree
        ⟨newWorld, [], 0⟩ = .ok pt s ∧ s.cursor = 0 ∧ 0 ∈ objectsOf fakeObjects s.world.store :=
    ⟨_, _, rfl, rfl, rfl⟩
  have ha : analyzeModel heldRuntime oneArray (some (blobStore fakeStore heldRuntime))
      (some 0) newWorld = .ok _ s.world :=
    analyzeModel_ok.mpr ⟨_, _, pt, s, asciiBytes heldText, rfl, rfl, hplace, rfl, rfl, rfl⟩
  have hsize : Analysis.totalSize ⟨⟨Vector.replicate 16 7⟩, 1, s.cursor,
      alignUp (headerSize + (asciiBytes heldText).length) frameSize, s.arrays,
      asciiBytes heldText⟩ = 65536 := by
    rw [hcursor]
    show alignUp (max (alignUp (headerSize + (asciiBytes heldText).length) frameSize + 0)
      frameSize) frameSize = 65536
    decide +kernel
  refine ⟨s.world, ?_, ?_, hstored⟩
  · have hcheck : checkOutput 65536 (.array smallBuffer.toArray true) =
        .error (.bufferTooSmallError "output buffer too small: need 65,536 bytes, got 1") := by
      decide +kernel
    rw [encodeSmall, encode, bind_ok ha]
    apply bind_error
    apply bind_error
    rw [acquireOutput, fromExcept_eq_error]
    refine ⟨?_, rfl⟩
    exact (congrArg (checkOutput · (.array smallBuffer.toArray true)) hsize).trans hcheck
  · exact Set.eq_empty_of_forall_notMem fun o ho => Bool.noConfusion ho

theorem encode_failed_iff_small : ∃ e w', encodeSmall = .error e w' ∧
    (objectsOf fakeObjects w'.store = objectsOf fakeObjects newWorld.store ↔
      Untaken (fun w array => (w.store.resolvedRefs (key array)).isSome = true)
        (fun w array => ∃ o v, fakeStore.client.put (ascontiguousContent w.mem array)
          fakeStore.persistOnPut (clientWorld w) = .ok o v) newWorld
        (oneArray.putArrays (some (blobStore fakeStore heldRuntime)) (some 0))) := by
  obtain ⟨w', hrun, -⟩ := encodeSmall_error
  refine ⟨_, w', hrun, encode_failed_iff ?_ hrun⟩
  intro store hstore
  cases hstore
  exact blobStore_storing fakeClient_lawful heldRuntime

/-- The failed call has stored the array. -/
theorem failed_encode_stores : ∃ e w', encodeSmall = .error e w' ∧
    objectsOf fakeObjects w'.store ≠ objectsOf fakeObjects newWorld.store := by
  obtain ⟨w', hrun, hbefore, hafter⟩ := encodeSmall_error
  refine ⟨_, w', hrun, ?_⟩
  intro hsame
  rw [hsame, hbefore] at hafter
  exact hafter

end Vineyard
end Npb
