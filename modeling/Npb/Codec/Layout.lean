import Npb.Codec.Placement

/-! # Layout of the DATA section

What one step of the placing traversal can do (`placeLeaf_ok`), and from it what a whole traversal
leaves behind: array after array at the next aligned offset (`Laid`), every inline leaf among them,
and nothing but the puts done to the world. -/

namespace Npb
set_option autoImplicit false
open Effects Numpy

variable {σ : Type}

/-- From cursor `c` on, the arrays lie one after the other at aligned offsets and end at `e`. -/
def Laid : ℕ → List (ℕ × NdArray) → ℕ → Prop
  | c, [], e => e = c
  | c, (relOffset, a) :: arrays, e =>
    relOffset = alignUp c arrayAlignment ∧ Laid (relOffset + a.nbytes) arrays e

theorem le_alignUp_arrayAlignment (c : ℕ) : c ≤ alignUp c arrayAlignment :=
  le_alignUp c (by decide)

theorem Laid.start_le {c e relOffset : ℕ} {a : NdArray} {arrays : List (ℕ × NdArray)}
    (h : Laid c ((relOffset, a) :: arrays) e) : c ≤ relOffset := by
  rw [h.1]
  exact le_alignUp_arrayAlignment c

theorem Laid.append {c d e : ℕ} {xs ys : List (ℕ × NdArray)} (hx : Laid c xs d)
    (hy : Laid d ys e) : Laid c (xs ++ ys) e := by
  induction xs generalizing c with
  | nil =>
    have hd : d = c := hx
    subst hd
    exact hy
  | cons x xs ih =>
    obtain ⟨relOffset, a⟩ := x
    exact ⟨hx.1, ih hx.2⟩

theorem Laid.le {c e : ℕ} {arrays : List (ℕ × NdArray)} (h : Laid c arrays e) : c ≤ e := by
  induction arrays generalizing c with
  | nil => exact Nat.le_of_eq (Eq.symm h)
  | cons x arrays ih =>
    obtain ⟨relOffset, a⟩ := x
    have hc := h.start_le
    obtain ⟨-, hrest⟩ := h
    have hle := ih hrest
    omega

theorem Laid.mem_bounds {c e : ℕ} {arrays : List (ℕ × NdArray)} (h : Laid c arrays e)
    {relOffset : ℕ} {a : NdArray} (ha : (relOffset, a) ∈ arrays) :
    c ≤ relOffset ∧ relOffset + a.nbytes ≤ e := by
  induction arrays generalizing c with
  | nil => cases ha
  | cons x arrays ih =>
    obtain ⟨relOffset', a'⟩ := x
    have hc := h.start_le
    obtain ⟨-, hrest⟩ := h
    obtain heq | hmem := List.mem_cons.mp ha
    · cases heq
      have hle := hrest.le
      omega
    · obtain ⟨h1, h2⟩ := ih hrest hmem
      omega

/-! ## One leaf -/

section Step
variable {blobStore : Option (BlobStore σ)} {externalizeMinBytes : Option ℤ}

theorem validateNdarray_eq_ok {a : NdArray} :
    validateNdarray a = .ok () ↔ a.dtype.hasobject = false ∧ a.dtype.hasfields = false := by
  unfold validateNdarray
  cases a.dtype.hasobject <;> cases a.dtype.hasfields <;> simp

theorem inWorld_run {α : Type} (x : Py σ α) (s : Scan σ) :
    inWorld x s = match x s.world with
      | .ok a w => .ok a { s with world := w }
      | .error e w => .error e { s with world := w } := rfl

theorem inWorld_ok {α : Type} {x : Py σ α} {s s' : Scan σ} {a : α} (h : inWorld x s = .ok a s') :
    ∃ w, x s.world = .ok a w ∧ s' = { s with world := w } := by
  rw [inWorld_run] at h
  cases hx : x s.world with
  | ok b w => rw [hx] at h; cases h; exact ⟨w, rfl, rfl⟩
  | error e w => rw [hx] at h; cases h

/-- What placing a leaf can do: keep it, put it in the store, or give it the next aligned offset. -/
theorem placeLeaf_ok {l : Leaf} {s s' : Scan σ} {y : Tree Placed}
    (h : placeLeaf blobStore externalizeMinBytes l s = .ok y s') :
    (∃ v, l = .scalar v ∧ y = .leaf (.scalar v) ∧ s' = s) ∨
    (∃ ref, l = .blobRef ref ∧ y = .leaf (.external ref) ∧ s' = s) ∨
    (∃ a store ref w, l = .ndarray a ∧ validateNdarray a = .ok () ∧
      externalStore blobStore externalizeMinBytes a = some store ∧
      store.putArray a s.world = .ok ref w ∧ y = .leaf (.external ref) ∧
      s' = { s with world := w }) ∨
    (∃ a, l = .ndarray a ∧ validateNdarray a = .ok () ∧
      externalStore blobStore externalizeMinBytes a = none ∧
      y = .leaf (.inline (alignUp s.cursor arrayAlignment) a) ∧
      s' = ⟨s.world, s.arrays ++ [(alignUp s.cursor arrayAlignment, a)],
        alignUp s.cursor arrayAlignment + a.nbytes⟩) := by
  cases l with
  | scalar v => cases h; exact .inl ⟨v, rfl, rfl, rfl⟩
  | blobRef ref => cases h; exact .inr (.inl ⟨ref, rfl, rfl, rfl⟩)
  | ndarray a =>
    refine .inr (.inr ?_)
    rw [placeLeaf] at h
    obtain ⟨u, s₁, hvalid, h⟩ := bind_eq_ok.mp h
    obtain ⟨hvalid, hs₁⟩ := fromExcept_eq_ok.mp hvalid
    rw [hs₁] at h
    cases hstore : externalStore blobStore externalizeMinBytes a with
    | none =>
      rw [hstore] at h
      cases h
      exact .inr ⟨a, rfl, hvalid, hstore, rfl, rfl⟩
    | some store =>
      rw [hstore] at h
      obtain ⟨ref, s₂, hrun, h⟩ := bind_eq_ok.mp h
      obtain ⟨w, hput, rfl⟩ := inWorld_ok hrun
      cases h
      exact .inl ⟨a, store, ref, w, rfl, hvalid, hstore, hput, rfl, rfl⟩

theorem placeLeaf_external {a : NdArray} {store : BlobStore σ} {s : Scan σ} {ref : BlobRef}
    {w : World σ} (hvalid : validateNdarray a = .ok ())
    (hext : externalStore blobStore externalizeMinBytes a = some store)
    (hput : store.putArray a s.world = .ok ref w) :
    placeLeaf blobStore externalizeMinBytes (.ndarray a) s =
      .ok (.leaf (.external ref)) { s with world := w } := by
  have hrun : inWorld (store.putArray a) s = .ok ref { s with world := w } := by
    rw [inWorld_run, hput]
  rw [placeLeaf, bind_ok (fromExcept_eq_ok.mpr ⟨hvalid, rfl⟩), hext]
  exact (bind_ok hrun _).trans rfl

theorem placeLeaf_inline {a : NdArray} (hvalid : validateNdarray a = .ok ())
    (hext : externalStore blobStore externalizeMinBytes a = none) (s : Scan σ) :
    placeLeaf blobStore externalizeMinBytes (.ndarray a) s =
      .ok (.leaf (.inline (alignUp s.cursor arrayAlignment) a))
        ⟨s.world, s.arrays ++ [(alignUp s.cursor arrayAlignment, a)],
          alignUp s.cursor arrayAlignment + a.nbytes⟩ := by
  rw [placeLeaf, bind_ok (fromExcept_eq_ok.mpr ⟨hvalid, rfl⟩), hext]
  rfl

/-! ## A whole traversal -/

/-- The lists `_manifest_tree` builds from a tree `t`. -/
structure LaidOut (blobStore : Option (BlobStore σ)) (externalizeMinBytes : Option ℤ)
    (t : Tree Leaf) (s : Scan σ) : Prop where
  laid : Laid 0 s.arrays s.cursor
  source : ∀ relOffset a, (relOffset, a) ∈ s.arrays →
    a ∈ arraysOf t ∧ validateNdarray a = .ok () ∧
      externalStore blobStore externalizeMinBytes a = none

theorem placeTree_laidOut {t : Tree Leaf} {w : World σ} {pt : Tree Placed} {s : Scan σ}
    (h : placeTree blobStore externalizeMinBytes t ⟨w, [], 0⟩ = .ok pt s) :
    LaidOut blobStore externalizeMinBytes t s ∧
      ∀ relOffset a, Placed.inline relOffset a ∈ pt.leaves → (relOffset, a) ∈ s.arrays := by
  have hpost := Tree.bindM_post (I := LaidOut blobStore externalizeMinBytes t)
    (Q := fun s p => ∀ relOffset a, p = Placed.inline relOffset a → (relOffset, a) ∈ s.arrays) t
    (fun l hl s₁ y s₂ hI hrun => by
      rcases placeLeaf_ok hrun with ⟨v, rfl, rfl, rfl⟩ | ⟨ref, rfl, rfl, rfl⟩ |
        ⟨a, store, ref, w', rfl, _, _, _, rfl, rfl⟩ | ⟨a, rfl, hvalid, hnone, rfl, rfl⟩
      · exact ⟨hI, by simp, fun _ hb => hb⟩
      · exact ⟨hI, by simp, fun _ hb => hb⟩
      · exact ⟨⟨hI.laid, hI.source⟩, by simp, fun _ hb => hb⟩
      · refine ⟨⟨hI.laid.append ⟨rfl, rfl⟩, ?_⟩, ?_, ?_⟩
        · intro relOffset b hb
          obtain hb | hb := List.mem_append.mp hb
          · exact hI.source relOffset b hb
          · obtain ⟨-, rfl⟩ := Prod.mk.inj (List.mem_singleton.mp hb)
            exact ⟨mem_arraysOf.mpr hl, hvalid, hnone⟩
        · intro p hp relOffset b hpb
          rw [Tree.leaves_leaf, List.mem_singleton, hpb] at hp
          obtain ⟨rfl, rfl⟩ := Placed.inline.inj hp
          exact List.mem_append_right _ (List.mem_singleton_self _)
        · intro p hp relOffset b hpb
          exact List.mem_append_left _ (hp relOffset b hpb))
    (s := ⟨w, [], 0⟩) ⟨rfl, fun _ _ hmem => nomatch hmem⟩ h
  exact ⟨hpost.1, fun relOffset a hmem => hpost.2.1 _ hmem relOffset a rfl⟩

/-- Putting an array frees no live memory and changes no live byte. -/
def BlobStore.PutsExtend (store : BlobStore σ) : Prop :=
  ∀ a (w : World σ), w.Extends (finalState (store.putArray a w))

theorem externalStore_eq_some {store : BlobStore σ} {a : NdArray}
    (h : externalStore blobStore externalizeMinBytes a = some store) : blobStore = some store := by
  unfold externalStore at h
  split at h
  · split at h
    · exact h
    · cases h
  · cases h

section Keeps
variable {Q : World σ → World σ → Prop} (refl : ∀ w, Q w w)
  (hput : ∀ store, blobStore = some store → ∀ a, validateNdarray a = .ok () → ∀ w,
    Q w (finalState (store.putArray a w)))
include refl hput

/-- A leaf does to the world what the store does when it is handed an array. -/
theorem placeLeaf_keeps (l : Leaf) (s : Scan σ) :
    Q s.world (finalState (placeLeaf blobStore externalizeMinBytes l s)).world := by
  cases l with
  | scalar v => exact refl s.world
  | blobRef ref => exact refl s.world
  | ndarray a =>
    rw [placeLeaf, bind_run]
    cases hvalid : validateNdarray a with
    | error e => exact refl s.world
    | ok u =>
      rw [fromExcept_ok]
      cases hstore : externalStore blobStore externalizeMinBytes a with
      | none => exact refl s.world
      | some store =>
        have hrun := hput store (externalStore_eq_some hstore) a hvalid s.world
        change Q s.world (finalState ((inWorld (store.putArray a) >>= _) s)).world
        rw [bind_run, inWorld_run]
        cases hr : store.putArray a s.world <;> simpa [hr] using hrun

variable (trans : ∀ w₁ w₂ w₃, Q w₁ w₂ → Q w₂ w₃ → Q w₁ w₃)
include trans

theorem placeTree_keeps (t : Tree Leaf) (s : Scan σ) :
    Q s.world (finalState (placeTree blobStore externalizeMinBytes t s)).world :=
  Tree.bindM_keeps (R := fun s s' : Scan σ => Q s.world s'.world) (fun s => refl s.world)
    (fun _ _ _ => trans _ _ _) t (fun l _ s => placeLeaf_keeps refl hput l s) s

end Keeps

theorem placeTree_extends (hputs : ∀ store, blobStore = some store → store.PutsExtend)
    (t : Tree Leaf) (s : Scan σ) :
    s.world.Extends (finalState (placeTree blobStore externalizeMinBytes t s)).world :=
  placeTree_keeps (Q := World.Extends) .refl (fun store h a _ w => hputs store h a w)
    (fun _ _ _ h h' => h.trans h') t s

end Step

/-! ## The analysis -/

theorem buildManifest_run (blobStore : Option (BlobStore σ)) (externalizeMinBytes : Option ℤ)
    (v : Value) (w : World σ) :
    buildManifest blobStore externalizeMinBytes v w =
      match placeTree blobStore externalizeMinBytes v.listed ⟨w, [], 0⟩ with
      | .ok pt s => .ok (pt.subst Placed.render, s.arrays, s.cursor) s.world
      | .error e s => .error e s.world := by
  unfold buildManifest
  rw [manifestTree_eq, map_run]
  cases placeTree blobStore externalizeMinBytes v.listed ⟨w, [], 0⟩ <;> rfl

/-- What `_analyze_model` computes when it returns. -/
theorem analyzeModel_ok {R : Runtime} {model : Model} {blobStore : Option (BlobStore σ)}
    {externalizeMinBytes : Option ℤ} {w w' : World σ} {a : Analysis} :
    analyzeModel R model blobStore externalizeMinBytes w = .ok a w' ↔
      ∃ schemaId schemaVersion pt s metadataJson,
        schemaIdentity model.cls = .ok (schemaId, schemaVersion) ∧
        checkThreshold blobStore externalizeMinBytes = .ok () ∧
        placeTree blobStore externalizeMinBytes model.tree ⟨w, [], 0⟩ = .ok pt s ∧
        R.toJson jsonFallback (pt.subst Placed.render) = .ok metadataJson ∧
        a = ⟨schemaId, schemaVersion, s.cursor,
          alignUp (headerSize + metadataJson.length) frameSize, s.arrays, metadataJson⟩ ∧
        w' = s.world := by
  constructor
  · intro h
    unfold analyzeModel at h
    rw [bind_eq_ok] at h
    obtain ⟨⟨schemaId, schemaVersion⟩, w₁, hid₀, h⟩ := h
    obtain ⟨hid, rfl⟩ := fromExcept_eq_ok.mp hid₀
    dsimp only at h
    rw [bind_eq_ok] at h
    obtain ⟨u, w₂, hcheck₀, h⟩ := h
    obtain ⟨hcheck, rfl⟩ := fromExcept_eq_ok.mp hcheck₀
    rw [bind_eq_ok] at h
    obtain ⟨⟨manifest, arrays, dataBytes⟩, w₃, hbuild, h⟩ := h
    dsimp only at h
    rw [bind_eq_ok] at h
    obtain ⟨metadataJson, w₄, hjson₀, h⟩ := h
    obtain ⟨hjson, rfl⟩ := fromExcept_eq_ok.mp hjson₀
    cases h
    rw [buildManifest_run] at hbuild
    cases hplace : placeTree blobStore externalizeMinBytes model.tree ⟨w₂, [], 0⟩ with
    | error e s => rw [← Model.tree, hplace] at hbuild; cases hbuild
    | ok pt s =>
      rw [← Model.tree, hplace] at hbuild
      cases hbuild
      exact ⟨schemaId, schemaVersion, pt, s, metadataJson, hid, hcheck, rfl, hjson, rfl, rfl⟩
  · rintro ⟨schemaId, schemaVersion, pt, s, metadataJson, hid, hcheck, hplace, hjson, rfl, rfl⟩
    have hbuild : buildManifest blobStore externalizeMinBytes model.modelDump w =
        .ok (pt.subst Placed.render, s.arrays, s.cursor) s.world := by
      rw [buildManifest_run, ← Model.tree, hplace]
    refine (bind_ok (fromExcept_eq_ok.mpr ⟨hid, rfl⟩) _).trans ?_
    refine (bind_ok (fromExcept_eq_ok.mpr ⟨hcheck, rfl⟩) _).trans ?_
    refine (bind_ok hbuild _).trans ?_
    exact (bind_ok (fromExcept_eq_ok.mpr ⟨hjson, rfl⟩) _).trans rfl

/-- Without a store the analysis neither looks at the world nor changes it. -/
theorem analyzeModel_offline {τ : Type} {R : Runtime} {model : Model} {w w₁ : World σ}
    {a : Analysis} (h : analyzeModel R model none none w = .ok a w₁) (v : World τ) :
    analyzeModel R model none none v = .ok a v ∧ w₁ = w := by
  obtain ⟨schemaId, schemaVersion, pt, s, metadataJson, hid, hcheck, hplace, hjson, ha, hw₁⟩ :=
    analyzeModel_ok.mp h
  obtain ⟨s', hplace', harrays, hcursor, hworld, hworld'⟩ := Tree.bindM_simulate
    (R := fun (s : Scan σ) (s' : Scan τ) => s'.arrays = s.arrays ∧ s'.cursor = s.cursor ∧
      s.world = w ∧ s'.world = v)
    (g := placeLeaf none none) model.tree
    (fun l _ s y s₁ s' hrel hrun => by
      obtain ⟨harrays, hcursor, hworld, hworld'⟩ := hrel
      rcases placeLeaf_ok hrun with ⟨c, rfl, rfl, rfl⟩ | ⟨ref, rfl, rfl, rfl⟩ |
        ⟨b, store, ref, w', rfl, -, hstore, -, -, -⟩ | ⟨b, rfl, hvalid, -, rfl, rfl⟩
      · exact ⟨s', rfl, harrays, hcursor, hworld, hworld'⟩
      · exact ⟨s', rfl, harrays, hcursor, hworld, hworld'⟩
      · cases hstore
      · have hrun' := placeLeaf_inline hvalid
          (rfl : externalStore (none : Option (BlobStore τ)) none b = none) s'
        rw [hcursor, harrays] at hrun'
        exact ⟨_, hrun', rfl, rfl, hworld, hworld'⟩)
    (v := ⟨v, [], 0⟩) ⟨rfl, rfl, rfl, rfl⟩ hplace
  refine ⟨analyzeModel_ok.mpr ⟨schemaId, schemaVersion, pt, s', metadataJson, hid, rfl, hplace',
    hjson, ?_, hworld'.symm⟩, hw₁.trans hworld⟩
  rw [ha, harrays, hcursor]

end Npb
