import Npb.Codec.RoundTrip

/-! # What a blob store is for

A store gives every array it is handed a reference, and gives the content back for it whatever
happens later. `denotes w ref` is the content that `ref` stands for in the world `w`. -/

namespace Npb
set_option autoImplicit false
open Effects Numpy

variable {σ : Type}

/-- The elements of the array lie in live memory. -/
def World.Holds (w : World σ) (a : NdArray) : Prop := ∀ x, a.Touches x → w.live x = true

theorem World.Extends.holds {w w' : World σ} (h : w.Extends w') {a : NdArray} (ha : w.Holds a) :
    w'.Holds a ∧ a.content w'.mem = a.content w.mem := by
  refine ⟨fun x hx => (h x (ha x hx)).1, ?_⟩
  exact NdArray.content_congr a fun x hx => (h x (ha x hx)).2

/-- The leaf is none that later writes can change. -/
def Leaf.Held (w : World σ) : Leaf → Prop
  | .ndarray a => w.Holds a
  | _ => True

theorem World.Extends.held {w w' : World σ} (h : w.Extends w') {l : Leaf} (hl : l.Held w) :
    l.Held w' ∧ l.observe w'.mem = l.observe w.mem := by
  cases l with
  | scalar s => exact ⟨trivial, rfl⟩
  | blobRef ref => exact ⟨trivial, rfl⟩
  | ndarray a =>
    obtain ⟨hholds, hcontent⟩ := h.holds hl
    exact ⟨hholds, congrArg LeafValue.array hcontent⟩

theorem holds_decodedView {binary : Buffer} {a : Analysis} {m₀ : Mem} {w : World σ}
    (hholds : Holds w.mem binary a m₀) (hlive : ∀ x, binary.Contains x → w.live x = true)
    {relOffset : ℕ} {node : NdArray} (hmem : (relOffset, node) ∈ a.arrays) :
    w.Holds (decodedView binary.base a.dataStart relOffset node) := by
  intro x hx
  have hwindow := NdArray.touches_contiguous (decodedView_isCContiguous ..) hx
  have hnbytes : (decodedView binary.base a.dataStart relOffset node).nbytes = node.nbytes := rfl
  have hdata : (decodedView binary.base a.dataStart relOffset node).data =
      binary.base + (a.dataStart + relOffset : ℕ) := rfl
  have hin := (hholds.laid.mem_bounds hmem).2
  have hroom := (le_totalSize a).trans hholds.room
  apply hlive
  unfold Buffer.Contains
  rw [hnbytes, hdata] at hwindow
  omega

/-- An array `_validate_ndarray` accepts and whose dtype string `np.dtype` reads back. -/
structure Encodable (R : Runtime) (a : NdArray) : Prop where
  valid : validateNdarray a = .ok ()
  dtype_str : R.dtype (.leaf (.str a.dtype.str)) = .ok (.plain a.dtype)

theorem Supported.encodable {R : Runtime} {a : NdArray} (h : Supported R a) : Encodable R a :=
  ⟨h.valid, h.dtype_str⟩

section Laws
variable (valid : World σ → Prop) (denotes : World σ → BlobRef → Option NdArray.Content)

/-- From `w` to `w'` no live memory and no stored content has been lost. -/
structure Kept (w w' : World σ) : Prop where
  memory : w.Extends w'
  valid : valid w'
  content : ∀ ref c, denotes w ref = some c → denotes w' ref = some c

/-- The reference is one of this store's and passes `from_manifest`. -/
structure BlobRef.Of (R : Runtime) (store : BlobStore σ) (ref : BlobRef) : Prop where
  kind : ref.store = store.kind
  wellFormed : BlobRef.check R ref = .ok ref

/-- What `put_array` and `get_array` promise while the store is in a valid state. -/
structure BlobStore.Lawful (R : Runtime) (store : BlobStore σ) : Prop where
  put : ∀ w a, valid w → Encodable R a → w.Holds a → ∃ ref w',
    store.putArray a w = .ok ref w' ∧ Kept valid denotes w w' ∧ ref.Of R store ∧
      denotes w' ref = some (a.content w.mem)
  get : ∀ w ref c, valid w → denotes w ref = some c → ∃ a w',
    store.getArray ref w = .ok a w' ∧ Kept valid denotes w w' ∧ w'.Holds a ∧
      a.content w'.mem = c
  /-- What else the program does leaves the store alone. -/
  frame : ∀ w w', valid w → w.Extends w' → w'.store = w.store → Kept valid denotes w w'

end Laws

section Leaves
variable {valid : World σ → Prop} {denotes : World σ → BlobRef → Option NdArray.Content}

theorem Kept.refl {w : World σ} (h : valid w) : Kept valid denotes w w :=
  ⟨.refl w, h, fun _ _ h => h⟩

theorem Kept.trans {w w' w'' : World σ} (h : Kept valid denotes w w')
    (h' : Kept valid denotes w' w'') : Kept valid denotes w w'' :=
  ⟨h.memory.trans h'.memory, h'.valid, fun ref c hc => h'.content ref c (h.content ref c hc)⟩

/-! ## Leaves a store can resolve -/

variable (denotes)

/-- A reference as the content it stands for. -/
def BlobRef.denoted (w : World σ) (ref : BlobRef) : LeafValue :=
  match denotes w ref with
  | some c => .array c
  | none => .blobRef ref

def Leaf.denoted (w : World σ) : Leaf → LeafValue
  | .blobRef ref => ref.denoted denotes w
  | l => l.observe w.mem

variable (R : Runtime) (store : BlobStore σ)

/-- A leaf that both encodings carry: a scalar, an array of positive itemsize, or a reference that
the store resolves. -/
def Leaf.Storable (w : World σ) : Leaf → Prop
  | .scalar _ => True
  | .ndarray a => Supported R a ∧ w.Holds a
  | .blobRef ref => ref.Of R store ∧ (denotes w ref).isSome = true

/-- A leaf that `encode` carries under these arguments: only the arrays it leaves inline have to be
of positive itemsize. -/
def Leaf.Placeable (blobStore : Option (BlobStore σ)) (externalizeMinBytes : Option ℤ)
    (w : World σ) : Leaf → Prop
  | .scalar _ => True
  | .ndarray a => Encodable R a ∧ w.Holds a ∧
    (externalStore blobStore externalizeMinBytes a = none → 0 < a.dtype.itemsize)
  | .blobRef ref => ref.Of R store ∧ (denotes w ref).isSome = true

variable {denotes R store}

theorem Leaf.Storable.placeable {w : World σ} {l : Leaf} (h : l.Storable denotes R store w)
    (blobStore : Option (BlobStore σ)) (externalizeMinBytes : Option ℤ) :
    l.Placeable denotes R store blobStore externalizeMinBytes w := by
  cases l with
  | scalar s => trivial
  | ndarray a => exact ⟨h.1.encodable, h.2, fun _ => h.1.itemsize_pos⟩
  | blobRef ref => exact h

theorem Kept.denoted {w w' : World σ} (h : Kept valid denotes w w') {ref : BlobRef}
    (href : (denotes w ref).isSome = true) :
    (denotes w' ref).isSome = true ∧ ref.denoted denotes w' = ref.denoted denotes w := by
  obtain ⟨c, hc⟩ := Option.isSome_iff_exists.mp href
  have hc' := h.content ref c hc
  rw [BlobRef.denoted, BlobRef.denoted, hc, hc']
  exact ⟨rfl, rfl⟩

theorem Kept.storable {w w' : World σ} (h : Kept valid denotes w w') {l : Leaf}
    (hl : l.Storable denotes R store w) :
    l.Storable denotes R store w' ∧ l.denoted denotes w' = l.denoted denotes w := by
  cases l with
  | scalar s => exact ⟨trivial, rfl⟩
  | ndarray a =>
    obtain ⟨hholds, hcontent⟩ := h.memory.holds hl.2
    exact ⟨⟨hl.1, hholds⟩, congrArg LeafValue.array hcontent⟩
  | blobRef ref =>
    obtain ⟨hsome, hsame⟩ := h.denoted hl.2
    exact ⟨⟨hl.1, hsome⟩, hsame⟩

end Leaves
end Npb
