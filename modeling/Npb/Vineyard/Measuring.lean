import Mathlib.Data.Set.Basic
import Npb.Codec.Republish
import Npb.Codec.Sections
import Npb.Vineyard.Runs

/-! # What `encoded_size` does to a store

`encoded_size` shares its traversal with `encode`, so it hands the store every array that the
threshold picks out. It only measures exactly when the store holds all of them already
(`encodedSize_measures_iff`); a Vineyard store that has not resolved them stores them
(`encodedSize_stores`). -/

namespace Npb
set_option autoImplicit false
open Effects Numpy

variable {σ κ : Type}

/-- `put_array` stores an array as a new object unless the store holds it already. -/
structure BlobStore.Interning (store : BlobStore σ) (objects : σ → Set κ)
    (holds : World σ → NdArray → Prop) : Prop where
  held : ∀ w a, validateNdarray a = .ok () → holds w a → ∃ ref, store.putArray a w = .ok ref w
  stored : ∀ w a, validateNdarray a = .ok () → ¬ holds w a → ∃ ref w',
    store.putArray a w = .ok ref w' ∧ objects w.store ⊆ objects w'.store ∧
      ∃ o ∈ objects w'.store, o ∉ objects w.store

/-- The same for a store that does not take every array. -/
structure BlobStore.Storing (store : BlobStore σ) (objects : σ → Set κ)
    (holds takes : World σ → NdArray → Prop) : Prop where
  held : ∀ w a, validateNdarray a = .ok () → holds w a → ∃ ref, store.putArray a w = .ok ref w
  stored : ∀ w a, validateNdarray a = .ok () → ¬ holds w a → takes w a → ∃ ref w',
    store.putArray a w = .ok ref w' ∧ objects w.store ⊆ objects w'.store ∧
      ∃ o ∈ objects w'.store, o ∉ objects w.store
  refused : ∀ w a, validateNdarray a = .ok () → ¬ holds w a → ¬ takes w a → ∃ e w',
    store.putArray a w = .error e w' ∧ objects w'.store = objects w.store

theorem BlobStore.Interning.storing {store : BlobStore σ} {objects : σ → Set κ}
    {holds : World σ → NdArray → Prop} (h : store.Interning objects holds) :
    store.Storing objects holds fun _ _ => True where
  held := h.held
  stored w a hvalid hnew _ := h.stored w a hvalid hnew
  refused _ _ _ _ hrefused := absurd trivial hrefused

theorem BlobStore.Storing.interning {store : BlobStore σ} {objects : σ → Set κ}
    {holds takes : World σ → NdArray → Prop} (h : store.Storing objects holds takes)
    (htakes : ∀ w a, takes w a) : store.Interning objects holds where
  held := h.held
  stored w a hvalid hnew := h.stored w a hvalid hnew (htakes w a)

/-- None of these arrays becomes an object: the store holds them, up to the first one that it does
not take. -/
def Untaken (holds takes : World σ → NdArray → Prop) (w : World σ) : List NdArray → Prop
  | [] => True
  | a :: arrays => (holds w a ∧ Untaken holds takes w arrays) ∨ (¬ holds w a ∧ ¬ takes w a)

theorem untaken_iff_held {holds : World σ → NdArray → Prop} {w : World σ} (arrays : List NdArray) :
    Untaken holds (fun _ _ => True) w arrays ↔ ∀ a ∈ arrays, holds w a := by
  induction arrays with
  | nil => simp [Untaken]
  | cons a arrays ih => simp [Untaken, ih]

section Placing
variable {blobStore : Option (BlobStore σ)} {externalizeMinBytes : Option ℤ}

/-- `_validate_ndarray` does not raise. -/
def accepts (a : NdArray) : Bool := !(a.dtype.hasobject || a.dtype.hasfields)

/-- The arrays among the leaves that the traversal puts: it ends at the first one
`_validate_ndarray` refuses. -/
def putArrays (blobStore : Option (BlobStore σ)) (externalizeMinBytes : Option ℤ)
    (ls : List Leaf) : List NdArray :=
  ((ls.filterMap Leaf.array?).takeWhile accepts).filter fun a =>
    (externalStore blobStore externalizeMinBytes a).isSome

section Leaves
variable {a : NdArray} {ls : List Leaf} {s : Scan σ}

theorem accepts_iff : accepts a = true ↔ validateNdarray a = .ok () := by
  rw [validateNdarray_eq_ok, accepts]
  simp

theorem putArrays_refused (h : validateNdarray a ≠ .ok ()) :
    putArrays blobStore externalizeMinBytes (.ndarray a :: ls) = [] := by
  have hrefused : accepts a = false := by simpa using mt accepts_iff.mp h
  simp [putArrays, Leaf.array?, hrefused]

theorem putArrays_inline (h : validateNdarray a = .ok ())
    (hext : externalStore blobStore externalizeMinBytes a = none) :
    putArrays blobStore externalizeMinBytes (.ndarray a :: ls) =
      putArrays blobStore externalizeMinBytes ls := by
  simp [putArrays, Leaf.array?, accepts_iff.mpr h, hext]

theorem putArrays_external {store : BlobStore σ} (h : validateNdarray a = .ok ())
    (hext : externalStore blobStore externalizeMinBytes a = some store) :
    putArrays blobStore externalizeMinBytes (.ndarray a :: ls) =
      a :: putArrays blobStore externalizeMinBytes ls := by
  simp [putArrays, Leaf.array?, accepts_iff.mpr h, hext]

theorem placeLeaf_refused {e : PyError} (h : validateNdarray a = .error e) :
    placeLeaf blobStore externalizeMinBytes (.ndarray a) s = .error e s := by
  rw [placeLeaf]
  exact bind_error (fromExcept_eq_error.mpr ⟨h, rfl⟩) _

theorem placeLeaf_external_error {store : BlobStore σ} {e : PyError} {w : World σ}
    (h : validateNdarray a = .ok ())
    (hext : externalStore blobStore externalizeMinBytes a = some store)
    (hput : store.putArray a s.world = .error e w) :
    placeLeaf blobStore externalizeMinBytes (.ndarray a) s = .error e { s with world := w } := by
  have hrun : inWorld (store.putArray a) s = .error e { s with world := w } := by
    rw [inWorld, hput]
  rw [placeLeaf, bind_ok (fromExcept_eq_ok.mpr ⟨h, rfl⟩), hext]
  exact bind_error hrun _

end Leaves

variable {objects : σ → Set κ} {holds : World σ → NdArray → Prop}

theorem place_held (hput : ∀ store, blobStore = some store → ∀ w a,
      validateNdarray a = .ok () → holds w a → ∃ ref, store.putArray a w = .ok ref w)
    (ls : List Leaf) (s : Scan σ)
    (hheld : ∀ a ∈ putArrays blobStore externalizeMinBytes ls, holds s.world a) :
    (finalState (ls.mapM (placeLeaf blobStore externalizeMinBytes) s)).world = s.world := by
  induction ls generalizing s with
  | nil => rfl
  | cons l ls ih =>
    cases l with
    | scalar v =>
      rw [finalState_mapM_ok
        (show placeLeaf blobStore externalizeMinBytes (.scalar v) s = _ from rfl)]
      exact ih s hheld
    | blobRef ref =>
      rw [finalState_mapM_ok (show placeLeaf blobStore externalizeMinBytes (.blobRef ref) s = _
        from rfl)]
      exact ih s hheld
    | ndarray a =>
      cases hvalid : validateNdarray a with
      | error e => rw [finalState_mapM_error (placeLeaf_refused hvalid)]
      | ok u =>
        cases hext : externalStore blobStore externalizeMinBytes a with
        | none =>
          rw [putArrays_inline hvalid hext] at hheld
          rw [finalState_mapM_ok (placeLeaf_inline hvalid hext s)]
          exact ih _ hheld
        | some store =>
          rw [putArrays_external hvalid hext] at hheld
          obtain ⟨ref, hrun⟩ := hput store (externalStore_eq_some hext) s.world a hvalid
            (hheld a (List.mem_cons_self ..))
          rw [finalState_mapM_ok (placeLeaf_external hvalid hext hrun)]
          exact ih _ fun b hb => hheld b (List.mem_cons_of_mem _ hb)

section Storing
variable {takes : World σ → NdArray → Prop}

theorem place_objects
    (hstore : ∀ store, blobStore = some store → store.Storing objects holds takes)
    (ls : List Leaf) (s : Scan σ) : objects s.world.store ⊆
      objects (finalState (ls.mapM (placeLeaf blobStore externalizeMinBytes) s)).world.store := by
  refine mapM_keeps (R := fun s s' : Scan σ => objects s.world.store ⊆ objects s'.world.store)
    (fun _ => Set.Subset.refl _) (fun _ _ _ h h' => Set.Subset.trans h h') ls (fun l _ s => ?_) s
  refine placeLeaf_keeps (Q := fun w w' : World σ => objects w.store ⊆ objects w'.store)
    (fun _ => Set.Subset.refl _) ?_ l s
  intro store hsome a hvalid w
  have hstoring := hstore store hsome
  by_cases hheld : holds w a
  · obtain ⟨ref, hput⟩ := hstoring.held w a hvalid hheld
    rw [hput]
    exact Set.Subset.refl _
  · by_cases htakes : takes w a
    · obtain ⟨ref, w', hput, hgrows, -⟩ := hstoring.stored w a hvalid hheld htakes
      rw [hput]
      exact hgrows
    · obtain ⟨e, w', hput, hsame⟩ := hstoring.refused w a hvalid hheld htakes
      rw [hput]
      exact hsame.ge

/-- The traversal adds no object if and only if the store takes none of the arrays it is handed. -/
theorem place_untaken_iff
    (hstore : ∀ store, blobStore = some store → store.Storing objects holds takes)
    (ls : List Leaf) (s : Scan σ) :
    objects (finalState (ls.mapM (placeLeaf blobStore externalizeMinBytes) s)).world.store =
        objects s.world.store ↔
      Untaken holds takes s.world (putArrays blobStore externalizeMinBytes ls) := by
  induction ls generalizing s with
  | nil => exact iff_of_true rfl trivial
  | cons l ls ih =>
    cases l with
    | scalar v =>
      rw [finalState_mapM_ok
        (show placeLeaf blobStore externalizeMinBytes (.scalar v) s = _ from rfl)]
      exact ih s
    | blobRef ref =>
      rw [finalState_mapM_ok (show placeLeaf blobStore externalizeMinBytes (.blobRef ref) s = _
        from rfl)]
      exact ih s
    | ndarray a =>
      cases hvalid : validateNdarray a with
      | error e =>
        rw [finalState_mapM_error (placeLeaf_refused hvalid),
          putArrays_refused (by rw [hvalid]; exact nofun)]
        exact iff_of_true rfl trivial
      | ok u =>
        cases hext : externalStore blobStore externalizeMinBytes a with
        | none =>
          rw [putArrays_inline hvalid hext, finalState_mapM_ok (placeLeaf_inline hvalid hext s)]
          exact ih _
        | some store =>
          rw [putArrays_external hvalid hext, Untaken]
          have hstoring := hstore store (externalStore_eq_some hext)
          by_cases hheld : holds s.world a
          · obtain ⟨ref, hput⟩ := hstoring.held s.world a hvalid hheld
            rw [finalState_mapM_ok (placeLeaf_external hvalid hext hput)]
            simp [hheld, ih]
          · by_cases htakes : takes s.world a
            · -- the new object stays, whatever the later leaves do
              obtain ⟨ref, w', hput, -, o, ho, hnew⟩ := hstoring.stored s.world a hvalid hheld htakes
              rw [finalState_mapM_ok (placeLeaf_external hvalid hext hput)]
              apply iff_of_false
              · intro hsame
                have ho' : o ∈ objects (finalState (ls.mapM
                    (placeLeaf blobStore externalizeMinBytes) { s with world := w' })).world.store :=
                  place_objects hstore ls _ ho
                rw [hsame] at ho'
                exact hnew ho'
              · simp [hheld, htakes]
            · obtain ⟨e, w', hput, hsame⟩ := hstoring.refused s.world a hvalid hheld htakes
              rw [finalState_mapM_error (placeLeaf_external_error hvalid hext hput)]
              exact iff_of_true hsame (.inr ⟨hheld, htakes⟩)

end Storing

end Placing

/-! ## Measuring -/

/-- The arrays that `encoded_size` puts: none if it refuses the schema or the threshold. -/
def Model.putArrays (model : Model) (blobStore : Option (BlobStore σ))
    (externalizeMinBytes : Option ℤ) : List NdArray :=
  match schemaIdentity model.cls, checkThreshold blobStore externalizeMinBytes with
  | .ok _, .ok _ => Npb.putArrays blobStore externalizeMinBytes model.tree.leaves
  | _, _ => []

/-- `encoded_size` adds no object to the store, and `encode` called next with the same arguments
returns as many bytes as it said, given the room for them and numbers that fit the header. -/
def OnlyMeasures (R : Runtime) (model : Model) (blobStore : Option (BlobStore σ))
    (externalizeMinBytes : Option ℤ) (objects : σ → Set κ) (w : World σ) : Prop :=
  objects (finalState (encodedSize R model blobStore externalizeMinBytes w)).store =
      objects w.store ∧
    ∀ n w₁, encodedSize R model blobStore externalizeMinBytes w = .ok n w₁ → ∀ out,
      (∀ binary w₂, encode R model out blobStore externalizeMinBytes w₁ = .ok binary w₂ →
        binary.size = n) ∧
      ((∃ room w₂, acquireOutput R n out w₁ = .ok room w₂) →
        (∀ a w₂, analyzeModel R model blobStore externalizeMinBytes w₁ = .ok a w₂ →
          a.HeaderFits) →
        ∃ binary w₂, encode R model out blobStore externalizeMinBytes w₁ = .ok binary w₂)

section Measure
variable {R : Runtime} {model : Model} {blobStore : Option (BlobStore σ)}
  {externalizeMinBytes : Option ℤ} {w : World σ}

theorem finalState_bind_fromExcept {ε S α β : Type} (x : EStateM ε S α) (f : α → Except ε β)
    (s : S) : finalState ((x >>= fun a => fromExcept (f a)) s) = finalState (x s) := by
  rw [bind_run]
  cases x s with
  | ok a s' => cases h : f a <;> simp [h]
  | error e s' => rfl

theorem finalState_buildManifest : finalState (buildManifest blobStore externalizeMinBytes
      model.modelDump w) =
    (finalState (model.tree.leaves.mapM (placeLeaf blobStore externalizeMinBytes)
      ⟨w, [], 0⟩)).world := by
  rw [← finalState_discard (model.tree.leaves.mapM _), ← Tree.discard_bindM, finalState_discard,
    buildManifest_run, Model.tree, placeTree]
  cases Tree.bindM (placeLeaf blobStore externalizeMinBytes) model.modelDump.listed ⟨w, [], 0⟩ <;>
    rfl

theorem finalState_encodedSize (R : Runtime) (model : Model) (blobStore : Option (BlobStore σ))
    (externalizeMinBytes : Option ℤ) (w : World σ) :
    (finalState (encodedSize R model blobStore externalizeMinBytes w) = w ∧
      model.putArrays blobStore externalizeMinBytes = []) ∨
    (finalState (encodedSize R model blobStore externalizeMinBytes w) =
      (finalState (model.tree.leaves.mapM (placeLeaf blobStore externalizeMinBytes)
        ⟨w, [], 0⟩)).world ∧ model.putArrays blobStore externalizeMinBytes =
      putArrays blobStore externalizeMinBytes model.tree.leaves) := by
  cases hid : schemaIdentity model.cls with
  | error e =>
    refine .inl ⟨?_, by rw [Model.putArrays, hid]⟩
    have hrun : analyzeModel R model blobStore externalizeMinBytes w = .error e w :=
      bind_error (fromExcept_eq_error.mpr ⟨hid, rfl⟩) _
    rw [encodedSize, bind_error hrun, finalState_error]
  | ok id =>
    cases hcheck : checkThreshold blobStore externalizeMinBytes with
    | error e =>
      refine .inl ⟨?_, by rw [Model.putArrays, hid, hcheck]⟩
      have hrun : analyzeModel R model blobStore externalizeMinBytes w = .error e w :=
        (bind_ok (fromExcept_eq_ok.mpr ⟨hid, rfl⟩) _).trans
          (bind_error (fromExcept_eq_error.mpr ⟨hcheck, rfl⟩) _)
      rw [encodedSize, bind_error hrun, finalState_error]
    | ok u =>
      refine .inr ⟨?_, by rw [Model.putArrays, hid, hcheck]⟩
      rw [← finalState_buildManifest]
      have hrun : encodedSize R model blobStore externalizeMinBytes w =
          (buildManifest blobStore externalizeMinBytes model.modelDump >>= fun m =>
            fromExcept (R.toJson jsonFallback m.1 >>= fun metadataJson =>
              .ok (Analysis.totalSize ⟨id.1, id.2, m.2.2,
                alignUp (headerSize + metadataJson.length) frameSize, m.2.1, metadataJson⟩))) w := by
        have hpure : ∀ n : ℕ, (fromExcept (.ok n) : Py σ ℕ) = pure n := fun n => rfl
        unfold encodedSize analyzeModel
        rw [bind_assoc]
        refine (bind_ok (fromExcept_eq_ok.mpr ⟨hid, rfl⟩) _).trans ?_
        rw [bind_assoc]
        refine (bind_ok (fromExcept_eq_ok.mpr ⟨hcheck, rfl⟩) _).trans ?_
        simp only [bind_assoc, ← fromExcept_bind, hpure, pure_bind]
      rw [hrun, finalState_bind_fromExcept]

theorem encodedSize_ok {n : ℕ} {w₁ : World σ}
    (h : encodedSize R model blobStore externalizeMinBytes w = .ok n w₁) :
    ∃ a, analyzeModel R model blobStore externalizeMinBytes w = .ok a w₁ ∧ n = a.totalSize := by
  rw [encodedSize, bind_eq_ok] at h
  obtain ⟨a, w₂, ha, h⟩ := h
  cases h
  exact ⟨a, ha, rfl⟩

variable {objects : σ → Set κ} {holds : World σ → NdArray → Prop}

/-- `encoded_size` only measures if and only if the store already holds every array that the
threshold picks out. -/
theorem encodedSize_measures_iff
    (hstore : ∀ store, blobStore = some store → store.Interning objects holds) :
    OnlyMeasures R model blobStore externalizeMinBytes objects w ↔
      ∀ a ∈ model.putArrays blobStore externalizeMinBytes, holds w a := by
  constructor
  · intro hmeasures
    have hsame := hmeasures.1
    cases finalState_encodedSize R model blobStore externalizeMinBytes w with
    | inl hrun =>
      rw [hrun.2]
      exact nofun
    | inr hrun =>
      rw [hrun.1, place_untaken_iff fun store h => (hstore store h).storing] at hsame
      rw [hrun.2]
      exact (untaken_iff_held _).mp hsame
  · intro hheld
    have hsame : finalState (encodedSize R model blobStore externalizeMinBytes w) = w := by
      rcases finalState_encodedSize R model blobStore externalizeMinBytes w with
        ⟨hfinal, -⟩ | ⟨hfinal, hputs⟩
      · exact hfinal
      · rw [hputs] at hheld
        rw [hfinal]
        exact place_held (fun store h => (hstore store h).held) model.tree.leaves ⟨w, [], 0⟩ hheld
    refine ⟨by rw [hsame], ?_⟩
    intro n w₁ hsize out
    rw [hsize, finalState_ok] at hsame
    subst hsame
    obtain ⟨a, ha, rfl⟩ := encodedSize_ok hsize
    constructor
    · intro binary w₂ hencode
      obtain ⟨a', w₃, w₄, header, ha', hacquire, -⟩ := encode_parts hencode
      cases ha.symm.trans ha'
      exact (acquireOutput_ok hacquire).1
    · intro hroom hfits
      obtain ⟨room, w₂, hacquire⟩ := hroom
      obtain ⟨header, hhead⟩ := (packHeader_isOk_iff a).mpr (hfits a w₁ ha)
      obtain ⟨rest, -, hrun⟩ := encode_written ha hhead hacquire
      exact ⟨room, _, hrun⟩

end Measure

/-! ## With a Vineyard store -/

namespace Vineyard
variable {O C : Type} [DecidableEq O]

/-- The objects of the daemon behind a store. -/
def objectsOf (objects : C → O → Option Argument) (s : State C) : Set O :=
  {o | (objects s.client o).isSome = true}

/-- A Vineyard store holds the arrays whose key it has registered, and takes those that its client
puts. -/
theorem blobStore_storing {V : VineyardStore O C} {objects : C → O → Option Argument}
    {used : C → O → Prop} (hV : V.client.Lawful objects used) (R : Runtime) :
    (blobStore V R).Storing (objectsOf objects)
      (fun w array => (w.store.resolvedRefs (key array)).isSome = true)
      fun w array => ∃ o v,
        V.client.put (ascontiguousContent w.mem array) V.persistOnPut (clientWorld w) = .ok o v := by
  constructor
  · intro w array hvalid hheld
    obtain ⟨ref, href⟩ := Option.isSome_iff_exists.mp hheld
    exact ⟨ref, putArray_reused hvalid href⟩
  · intro w array hvalid hnew htakes
    have hmiss : w.store.resolvedRefs (key array) = none := by simpa using hnew
    obtain ⟨o, v, hclient⟩ := htakes
    obtain ⟨hfresh, ⟨value, hobjects⟩, -⟩ := hV.put_ok _ _ _ _ _ hclient
    refine ⟨refForObject V o (ascontiguousContent w.mem array) 0, withClient w v, ?_, ?_⟩
    · refine (putArray_missed hvalid hmiss).trans ?_
      exact (bind_ok (inClient_ok hclient) _).trans rfl
    have hother : ∀ o', o' ≠ o → objects v.store o' = objects w.store.client o' := by
      intro o' hne
      rw [hobjects, Function.update_of_ne hne]
      rfl
    have habsent : objects w.store.client o = none := by
      by_contra hsome
      obtain ⟨u, hu⟩ := Option.ne_none_iff_exists'.mp hsome
      exact hfresh (hV.used_of_object _ _ _ hu)
    refine ⟨?_, o, ?_, ?_⟩
    · intro o' ho'
      have ho'' : (objects w.store.client o').isSome = true := ho'
      have hne : o' ≠ o := by
        rintro rfl
        rw [habsent] at ho''
        cases ho''
      show (objects v.store o').isSome = true
      rwa [hother o' hne]
    · show (objects v.store o).isSome = true
      rw [hobjects, Function.update_self]
      rfl
    · intro hmem
      have hmem' : (objects w.store.client o).isSome = true := hmem
      rw [habsent] at hmem'
      cases hmem'
  · intro w array hvalid hnew hrefused
    have hmiss : w.store.resolvedRefs (key array) = none := by simpa using hnew
    cases hclient : V.client.put (ascontiguousContent w.mem array) V.persistOnPut
        (clientWorld w) with
    | ok o v => exact absurd ⟨o, v, hclient⟩ hrefused
    | error e v =>
      refine ⟨e, withClient w v, ?_, ?_⟩
      · refine (putArray_missed hvalid hmiss).trans ?_
        exact bind_error (inClient_error hclient) _
      · have hsame : objects v.store = objects w.store.client := (hV.put_error _ _ _ _ _ hclient).1
        exact congrArg (fun f : O → Option Argument => {o | (f o).isSome = true}) hsame

theorem blobStore_interning {V : VineyardStore O C} {R : Runtime}
    {objects : C → O → Option Argument} {used : C → O → Prop}
    (hV : V.client.Lawful objects used)
    (hput : ∀ (array : NdArray) (w : World (State C)), ∃ o v,
      V.client.put (ascontiguousContent w.mem array) V.persistOnPut (clientWorld w) = .ok o v) :
    (blobStore V R).Interning (objectsOf objects)
      fun w array => (w.store.resolvedRefs (key array)).isSome = true :=
  (blobStore_storing hV R).interning fun w array => hput array w

theorem ascontiguousContent_shapeOk (m : Mem) (array : NdArray) :
    ShapeOk array.dtype.itemsize (ascontiguousContent m array).shape := by
  have hok := array.shape_ok
  unfold ascontiguousContent
  dsimp only
  split
  · next hnil =>
    rw [hnil] at hok
    exact ⟨by simp, by simp, by simpa using hok.2.2⟩
  · exact hok

theorem fakeClient_puts (array : NdArray) (w : World (State (List (Option NdArray)))) :
    ∃ o v, fakeStore.client.put (ascontiguousContent w.mem array) fakeStore.persistOnPut
      (clientWorld w) = .ok o v := by
  have hshape : ShapeOk (ascontiguousContent w.mem array).dtype.itemsize
      (ascontiguousContent w.mem array).shape := ascontiguousContent_shapeOk w.mem array
  unfold fakeStore fakeClient
  dsimp only
  rw [mkArray_eq_ok.mpr ⟨hshape, rfl⟩]
  exact ⟨_, _, rfl⟩

theorem fakeStore_interning (R : Runtime) (store : BlobStore (State (List (Option NdArray))))
    (h : some (blobStore fakeStore R) = some store) :
    store.Interning (objectsOf fakeObjects)
      fun w array => (w.store.resolvedRefs (key array)).isSome = true := by
  cases h
  exact blobStore_interning fakeClient_lawful fakeClient_puts

/-- A new store over a daemon without objects. -/
def newWorld : World (State (List (Option NdArray))) :=
  ⟨oneArrayWorld.mem, fun _ => true, .new []⟩

theorem encodedSize_measures_iff_new :
    OnlyMeasures heldRuntime oneArray (some (blobStore fakeStore heldRuntime)) (some 0)
        (objectsOf fakeObjects) newWorld ↔
      ∀ a ∈ oneArray.putArrays (some (blobStore fakeStore heldRuntime)) (some 0),
        (newWorld.store.resolvedRefs (key a)).isSome = true :=
  encodedSize_measures_iff (fakeStore_interning heldRuntime)

/-- Measuring a model with one array stores the array. -/
theorem encodedSize_stores : ∃ n w₁,
    encodedSize heldRuntime oneArray (some (blobStore fakeStore heldRuntime)) (some 0)
      newWorld = .ok n w₁ ∧
    objectsOf fakeObjects newWorld.store = ∅ ∧ 0 ∈ objectsOf fakeObjects w₁.store := by
  obtain ⟨pt, s, hplace, hstored⟩ : ∃ pt s,
      placeTree (some (blobStore fakeStore heldRuntime)) (some 0) oneArray.tree
        ⟨newWorld, [], 0⟩ = .ok pt s ∧ 0 ∈ objectsOf fakeObjects s.world.store :=
    ⟨_, _, rfl, rfl⟩
  have ha : analyzeModel heldRuntime oneArray (some (blobStore fakeStore heldRuntime))
      (some 0) newWorld = .ok _ s.world :=
    analyzeModel_ok.mpr ⟨_, _, pt, s, asciiBytes heldText, rfl, rfl, hplace, rfl, rfl, rfl⟩
  refine ⟨_, s.world, encodedSize_of_analysis ha, ?_, hstored⟩
  exact Set.eq_empty_of_forall_notMem fun o ho => Bool.noConfusion ho

end Vineyard
end Npb
