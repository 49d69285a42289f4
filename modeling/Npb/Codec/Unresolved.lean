import Npb.Codec.ErrorPaths
import Npb.Codec.RoundTrip
import Npb.Codec.Schema

/-! # References that `decode` does not resolve

`_restore_tree` makes a `BlobRef` of every external reference it comes to, `decode` searches the
result for one. Both go the same way through the manifest (`unresolved_iff`). -/

namespace Npb
set_option autoImplicit false
open Effects Numpy

variable {σ : Type}

/-! ## Where `_restore_tree` comes to -/

/-- Called on the first value, `_restore_tree` comes to the second: it does not look into a mapping
that it takes for a reference. -/
inductive Interprets : Json → Json → Prop
  | here (j : Json) : Interprets j j
  | element {xs : List Json} {x node : Json} (hx : x ∈ xs) (h : Interprets x node) :
    Interprets (.list xs) node
  | entry {kvs : List (String × Json)} {kv : String × Json} {node : Json} (hkvs : NotReference kvs)
    (hkv : kv ∈ kvs) (h : Interprets kv.2 node) : Interprets (.dict kvs) node

/-- The external references that are restored are the mappings with the only key `"$blob"` that
`_restore_tree` comes to. -/
theorem blob_mem_references_iff (j value : Json) :
    Reference.blob value ∈ (references j).leaves ↔ Interprets j (.dict [("$blob", value)]) := by
  induction j using Tree.induct with
  | leaf s =>
    rw [references, Tree.leaves_leaf, List.mem_singleton]
    constructor
    · intro h
      cases h
    · intro h
      cases h
  | list xs ih =>
    rw [references_list, Tree.leaves_list, List.flatMap_map, List.mem_flatMap]
    constructor
    · rintro ⟨x, hx, hvalue⟩
      exact .element hx ((ih x hx).mp hvalue)
    · intro h
      cases h with
      | element hx h => exact ⟨_, hx, (ih _ hx).mpr h⟩
  | dict kvs ih =>
    cases hblob : Tree.soleValue "$blob" kvs with
    | some value' =>
      rw [references, hblob, Tree.leaves_leaf, List.mem_singleton]
      constructor
      · intro h
        cases h
        rw [Tree.soleValue_eq_some.mp hblob]
        exact .here _
      · intro h
        cases h with
        | here =>
          cases Tree.soleValue_eq_some.mp hblob
          rfl
        | entry hkvs hkv h => cases hkvs.1.symm.trans hblob
    | none =>
      have hne : kvs ≠ [("$blob", value)] := by
        intro h
        rw [Tree.soleValue_eq_some.mpr h] at hblob
        cases hblob
      cases hbin : binReference kvs with
      | some ref =>
        rw [references, hblob, hbin, Tree.leaves_leaf, List.mem_singleton]
        constructor
        · intro h
          cases h
        · intro h
          cases h with
          | here => exact absurd rfl hne
          | entry hkvs hkv h => cases hkvs.2.symm.trans hbin
      | none =>
        rw [references_dict ⟨hblob, hbin⟩, Tree.leaves_dict, List.flatMap_map, List.mem_flatMap]
        constructor
        · rintro ⟨kv, hkv, hvalue⟩
          exact .entry ⟨hblob, hbin⟩ hkv ((ih kv hkv).mp hvalue)
        · intro h
          cases h with
          | here => exact absurd rfl hne
          | entry hkvs hkv h => exact ⟨_, hkv, (ih _ hkv).mpr h⟩

/-! ## What is left unresolved -/

def Leaf.isBlobRef : Leaf → Bool
  | .blobRef _ => true
  | _ => false

def Reference.isBlob : Reference → Bool
  | .blob _ => true
  | _ => false

theorem unresolved_iff_observed (t : Tree Leaf) :
    containsUnresolvedBlobRef t = true ↔ true ∈ (t.map Leaf.isBlobRef).leaves := by
  rw [containsUnresolvedBlobRef_iff, Tree.leaves_map, List.mem_map]
  constructor
  · rintro ⟨ref, href⟩
    exact ⟨_, href, rfl⟩
  · rintro ⟨l, hl, hblob⟩
    cases l with
    | blobRef ref => exact ⟨ref, hl⟩
    | scalar s => cases hblob
    | ndarray a => cases hblob

section Restore
variable {R : Runtime} {binary : Buffer} {dataStart dataBytes : ℕ}
  {blobStore : Option (BlobStore σ)} {I : World σ → Prop} {w : World σ}

/-- When every reference is restored to one leaf, the restored tree has its `BlobRef`s where the
references were that left one. -/
theorem restoreTree_unresolved (left : Reference → Bool) (j : Json)
    (hleaf : ∀ r ∈ (references j).leaves, ∀ v, I v → ∃ l v',
      restoreReference R binary dataStart dataBytes blobStore r v = .ok (.leaf l) v' ∧ I v' ∧
        l.isBlobRef = left r) (hI : I w) :
    ∃ tree w', restoreTree R binary dataStart dataBytes blobStore j w = .ok tree w' ∧ I w' ∧
      tree.map Leaf.isBlobRef = (references j).map left := by
  obtain ⟨tree, w', hrun, hI', hsettled, -⟩ := Tree.bindM_observe (fun _ _ => True)
    (fun (_ : World σ) l => Leaf.isBlobRef l) (references j)
    (g := fun r => .leaf (left r)) (fun r hr v hv => by
      obtain ⟨l, v', hl, hv', hsame⟩ := hleaf r hr v hv
      exact ⟨_, v', hl, hv', Tree.settled_leaf trivial hsame, fun _ h => ⟨h, rfl⟩⟩) hI
  exact ⟨tree, w', (congrFun (restoreTree_eq ..) w).trans hrun, hI', hsettled.2⟩

end Restore

section Decode
variable {R : Runtime} {arg : Argument} {binary : Buffer} {info : BinaryInfo} {w : World σ}
  {cls : ModelClass} {entries : List (String × Json)}

/-- A manifest that is a mapping, all of whose references are well formed. -/
structure SoundManifest (R : Runtime) (binary : Buffer) (info : BinaryInfo)
    (entries : List (String × Json)) : Prop where
  /-- The mapping itself is not taken for a reference. -/
  mapping : NotReference entries
  inline : ∀ ref, Reference.bin ref ∈ (references (.dict entries)).leaves →
    ∃ a, restoreBin R binary info.dataStart info.dataBytes ref = .ok a
  external : ∀ value, Reference.blob value ∈ (references (.dict entries)).leaves →
    ∃ ref, BlobRef.fromManifest R value = .ok ref

/-- The store is of the kind of every external reference of the manifest and resolves them all, in
whatever order: `I` holds in between. -/
def ResolvesAll (R : Runtime) (store : BlobStore σ) (I : World σ → Prop)
    (entries : List (String × Json)) : Prop :=
  ∀ value ref, Reference.blob value ∈ (references (.dict entries)).leaves →
    BlobRef.fromManifest R value = .ok ref → store.kind = ref.store ∧
      ∀ v, I v → ∃ a v', store.getArray ref v = .ok a v' ∧ I v'

theorem decodeChecked_sound (blobStore : Option (BlobStore σ)) {I : World σ → Prop}
    (left : Reference → Bool) (hrequire : requireBinaryArray arg = .ok binary)
    (haccepted : Accepted w.mem binary info)
    (hid : schemaIdentity cls = .ok (info.schemaId, info.schemaVersion))
    (hparse : R.fromJson (w.mem.read (binary.base + headerSize) info.metadataBytes) =
      .ok (.dict entries)) (hmapping : NotReference entries)
    (hleaf : ∀ r ∈ (references (.dict entries)).leaves, ∀ v, I v → ∃ l v',
      restoreReference R binary info.dataStart info.dataBytes blobStore r v = .ok (.leaf l) v' ∧
        I v' ∧ l.isBlobRef = left r) (hI : I w) :
    ∃ kvs w', decodeChecked R cls arg blobStore w =
        fromExcept (raiseIf (containsUnresolvedBlobRef (.dict kvs)) blobStoreRequired >>= fun _ =>
          .ok kvs) w' ∧ I w' ∧
        (containsUnresolvedBlobRef (.dict kvs) = true ↔
          ∃ r ∈ (references (.dict entries)).leaves, left r = true) := by
  obtain ⟨tree, w', hrun, hI', hsame⟩ := restoreTree_unresolved left (.dict entries) hleaf hI
  obtain ⟨kvs, rfl⟩ : ∃ kvs, tree = .dict kvs := by
    rw [references_dict hmapping, Tree.map_dict] at hsame
    exact Tree.eq_dict_of_map hsame
  have hmeta : parseMetadata R (((binary.bytes w.mem).drop headerSize).take info.metadataBytes) =
      .ok (.dict entries) := by
    rw [metadata_read haccepted, parseMetadata, hparse, catching_ok]
  have hauto : decodeAuto R arg blobStore w = .ok kvs w' := by
    rw [decodeAuto_accepted hrequire haccepted, decodeTree, bind_ok (get_run w)]
    refine (bind_ok (fromExcept_eq_ok.mpr ⟨hmeta, rfl⟩) _).trans ?_
    refine (bind_ok hrun _).trans ?_
    rw [topLevel_eq_ok.mpr rfl, fromExcept_ok]
  refine ⟨kvs, w', ?_, hI', ?_⟩
  · rw [decodeChecked_matching hid (parseHeader_eq_ok.mpr ⟨hrequire, haccepted, rfl⟩),
      bind_ok hauto, ← fromExcept_bind]
    rfl
  · rw [unresolved_iff_observed, hsame, Tree.leaves_map, List.mem_map]

theorem restoreReference_storeless (hsound : SoundManifest R binary info entries) {r : Reference}
    (hr : r ∈ (references (.dict entries)).leaves) (v : World σ) :
    ∃ l, restoreReference R binary info.dataStart info.dataBytes none r v = .ok (.leaf l) v ∧
      l.isBlobRef = r.isBlob := by
  cases r with
  | scalar s => exact ⟨.scalar s, rfl, rfl⟩
  | bin ref =>
    obtain ⟨a, ha⟩ := hsound.inline ref hr
    refine ⟨.ndarray a, ?_, rfl⟩
    rw [restoreReference, bind_ok (fromExcept_eq_ok.mpr ⟨ha, rfl⟩), pure_run]
  | blob value =>
    obtain ⟨ref, href⟩ := hsound.external value hr
    refine ⟨.blobRef ref, ?_, rfl⟩
    rw [restoreReference, restoreBlob, href, catching_ok]
    rfl

theorem restoreReference_resolved (hsound : SoundManifest R binary info entries)
    {store : BlobStore σ} {I : World σ → Prop} (hstore : ResolvesAll R store I entries)
    {r : Reference} (hr : r ∈ (references (.dict entries)).leaves) {v : World σ} (hv : I v) :
    ∃ l v', restoreReference R binary info.dataStart info.dataBytes (some store) r v =
      .ok (.leaf l) v' ∧ I v' ∧ l.isBlobRef = false := by
  cases r with
  | scalar s => exact ⟨.scalar s, v, rfl, hv, rfl⟩
  | bin ref =>
    obtain ⟨a, ha⟩ := hsound.inline ref hr
    refine ⟨.ndarray a, v, ?_, hv, rfl⟩
    rw [restoreReference, bind_ok (fromExcept_eq_ok.mpr ⟨ha, rfl⟩), pure_run]
  | blob value =>
    obtain ⟨ref, href⟩ := hsound.external value hr
    obtain ⟨hkind, hget⟩ := hstore value ref hr href
    obtain ⟨a, v', hrun, hv'⟩ := hget v hv
    refine ⟨.ndarray a, v', ?_, hv', rfl⟩
    have hblob : restoreBlob R (some store) value v = .ok (.ndarray a) v' := by
      rw [restoreBlob, href, catching_ok, fromExcept_ok_bind]
      refine (raiseIf_run_eq_ok.mpr ⟨not_not.mpr hkind, ?_⟩)
      rw [bind_ok hrun, pure_run]
    rw [restoreReference, bind_ok hblob, pure_run]

/-- For a container of the right schema whose manifest is a mapping with well-formed references:
without a store, `decode` raises `BlobStoreRequiredError` if and only if `_restore_tree` comes to a
mapping whose only key is `"$blob"`, and passes on to `model_validate` otherwise; with a store that
resolves them all it passes on to `model_validate`. No tree passed on has a `BlobRef`. -/
theorem decode_unresolved_iff {α : Type} (modelValidate : List (String × Tree Leaf) → Py σ α)
    (hrequire : requireBinaryArray arg = .ok binary) (haccepted : Accepted w.mem binary info)
    (hid : schemaIdentity cls = .ok (info.schemaId, info.schemaVersion))
    (hparse : R.fromJson (w.mem.read (binary.base + headerSize) info.metadataBytes) =
      .ok (.dict entries)) (hsound : SoundManifest R binary info entries) :
    ((∃ w', decodeChecked R cls arg none w = .error blobStoreRequired w') ↔
      ∃ value, Interprets (.dict entries) (.dict [("$blob", value)])) ∧
    (decode R cls modelValidate arg none w = .error blobStoreRequired w ∨
      ∃ kvs, (∀ ref, Leaf.blobRef ref ∉ (Tree.dict kvs).leaves) ∧
        decode R cls modelValidate arg none w = modelValidate kvs w) ∧
    ∀ (store : BlobStore σ) (I : World σ → Prop), I w → ResolvesAll R store I entries →
      ∃ kvs w', (∀ ref, Leaf.blobRef ref ∉ (Tree.dict kvs).leaves) ∧
        decode R cls modelValidate arg (some store) w = modelValidate kvs w' := by
  have hwithout : ∀ kvs, containsUnresolvedBlobRef (.dict kvs) = false →
      ∀ ref, Leaf.blobRef ref ∉ (Tree.dict kvs).leaves := by
    intro kvs h ref href
    rw [(containsUnresolvedBlobRef_iff _).mpr ⟨ref, href⟩] at h
    cases h
  obtain ⟨kvs, _, hrun, rfl, hleft⟩ := decodeChecked_sound none (I := fun v => v = w)
    Reference.isBlob hrequire haccepted hid hparse hsound.mapping (fun r hr v hv => by
      obtain ⟨l, hl, hblob⟩ := restoreReference_storeless hsound hr v
      exact ⟨l, v, hl, hv, hblob⟩) rfl
  have hwhere : containsUnresolvedBlobRef (.dict kvs) = true ↔
      ∃ value, Interprets (.dict entries) (.dict [("$blob", value)]) := by
    rw [hleft]
    constructor
    · rintro ⟨r, hr, hblob⟩
      cases r with
      | blob value => exact ⟨value, (blob_mem_references_iff _ value).mp hr⟩
      | scalar s => cases hblob
      | bin ref => cases hblob
    · rintro ⟨value, h⟩
      exact ⟨_, (blob_mem_references_iff _ value).mpr h, rfl⟩
  refine ⟨?_, ?_, ?_⟩
  · rw [← hwhere, hrun]
    cases containsUnresolvedBlobRef (.dict kvs) with
    | true => exact ⟨fun _ => rfl, fun _ => ⟨_, rfl⟩⟩
    | false => exact ⟨nofun, nofun⟩
  · cases hcontains : containsUnresolvedBlobRef (.dict kvs) with
    | true =>
      left
      rw [hcontains] at hrun
      exact bind_error hrun _
    | false =>
      right
      rw [hcontains] at hrun
      exact ⟨kvs, hwithout kvs hcontains, bind_ok hrun _⟩
  · intro store I hI hstore
    obtain ⟨kvs', w', hrun', -, hleft'⟩ := decodeChecked_sound (some store) (fun _ => false)
      hrequire haccepted hid hparse hsound.mapping
      (fun r hr v hv => restoreReference_resolved hsound hstore hr hv) hI
    have hnone : containsUnresolvedBlobRef (.dict kvs') = false := by
      rw [← Bool.not_eq_true, hleft']
      rintro ⟨r, hr, h⟩
      cases h
    rw [hnone] at hrun'
    exact ⟨kvs', w', hwithout kvs' hnone, bind_ok hrun' _⟩

end Decode

section Samples

def leftRef : BlobRef := ⟨"vineyard", "o", 0, 8, "<f8", [1]⟩

def leftText : String :=
  "\x7b\"$blob\":\x7b\"store\":\"vineyard\",\"id\":\"o\",\"offset\":0,\"nbytes\":8," ++
    "\"dtype\":\"<f8\",\"shape\":[1]\x7d\x7d"

def referringText : String := "\x7b\"x\":" ++ leftText ++ "\x7d"

/-- A container that holds one reference, under the key `"x"`. -/
def referringRuntime : Runtime :=
  .ofDocument (.dict [("x", blobManifest leftRef)]) referringText 4096

/-- The `model_validate` of a class that takes any fields. -/
def takeFields (kvs : List (String × Tree Leaf)) : Py Unit (List (String × Tree Leaf)) :=
  return kvs

theorem decode_unresolved_iff_referring :
    ((∃ w', decodeChecked referringRuntime oneArray.cls (.array sampleBuffer.toArray false) none
        (errorWorld referringText) = .error blobStoreRequired w') ↔
      ∃ value, Interprets (.dict [("x", blobManifest leftRef)]) (.dict [("$blob", value)])) ∧
    (decode referringRuntime oneArray.cls takeFields (.array sampleBuffer.toArray false) none
        (errorWorld referringText) = .error blobStoreRequired (errorWorld referringText) ∨
      ∃ kvs, (∀ ref, Leaf.blobRef ref ∉ (Tree.dict kvs).leaves) ∧
        decode referringRuntime oneArray.cls takeFields (.array sampleBuffer.toArray false) none
          (errorWorld referringText) = takeFields kvs (errorWorld referringText)) ∧
    ∀ (store : BlobStore Unit) (I : World Unit → Prop), I (errorWorld referringText) →
      ResolvesAll referringRuntime store I [("x", blobManifest leftRef)] →
      ∃ kvs w', (∀ ref, Leaf.blobRef ref ∉ (Tree.dict kvs).leaves) ∧
        decode referringRuntime oneArray.cls takeFields (.array sampleBuffer.toArray false)
          (some store) (errorWorld referringText) = takeFields kvs w' := by
  have hleaves : (references (.dict [("x", blobManifest leftRef)])).leaves =
      [.blob leftRef.toManifest] := rfl
  obtain ⟨haccepted, hread⟩ := sample_accepted (d := 8) (fun _ => 255)
    (show headerSize + (asciiBytes referringText).length ≤ 65536 by decide +kernel) (by decide)
  have hmapping : NotReference [("x", blobManifest leftRef)] := ⟨rfl, rfl⟩
  refine decode_unresolved_iff takeFields (requireBinaryArray_toArray sampleBuffer false) haccepted
    rfl ?_ ⟨hmapping, ?_, ?_⟩
  · exact (congrArg referringRuntime.fromJson hread).trans (Runtime.fromJson_ofDocument ..)
  · intro ref href
    rw [hleaves, List.mem_singleton] at href
    cases href
  · intro value hvalue
    rw [hleaves, List.mem_singleton] at hvalue
    cases hvalue
    exact ⟨leftRef, rfl⟩

def leftRuntime : Runtime := .ofDocument (blobManifest leftRef) leftText 4096

/-- The manifest is itself the mapping with the only key `"$blob"`, and `decode` raises another
error. -/
theorem top_level_reference_refused : ∃ info,
    Accepted (errorWorld leftText).mem sampleBuffer info ∧
    schemaIdentity oneArray.cls = .ok (info.schemaId, info.schemaVersion) ∧
    leftRuntime.fromJson ((errorWorld leftText).mem.read (sampleBuffer.base + headerSize)
      info.metadataBytes) = .ok (.dict [("$blob", leftRef.toManifest)]) ∧
    BlobRef.fromManifest leftRuntime leftRef.toManifest = .ok leftRef ∧
    Interprets (.dict [("$blob", leftRef.toManifest)]) (.dict [("$blob", leftRef.toManifest)]) ∧
    decodeChecked leftRuntime oneArray.cls (.array sampleBuffer.toArray false) none
        (errorWorld leftText) =
      .error (.formatError "top-level NPB value must be an object") (errorWorld leftText) := by
  obtain ⟨haccepted, hread⟩ := sample_accepted (d := 8) (fun _ => 255)
    (show headerSize + (asciiBytes leftText).length ≤ 65536 by decide +kernel) (by decide)
  have hparse := (congrArg leftRuntime.fromJson hread).trans (Runtime.fromJson_ofDocument ..)
  refine ⟨_, haccepted, rfl, hparse, rfl, .here _, ?_⟩
  refine (decodeChecked_matching rfl (parseHeader_run haccepted false)).trans ?_
  apply bind_error
  rw [errorWorld, leftRuntime, decodeAuto_sample _ (by decide +kernel) (by decide)]
  rfl

end Samples
end Npb
