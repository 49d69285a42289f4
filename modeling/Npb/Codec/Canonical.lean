import Npb.Codec.Mutation
import Npb.Codec.Relocation

/-! # Comparing containers

Equal bytes mean equal models: what `encode` publishes is determined by the schema identity and the
form of the model, and determines both (`encode_canonical`). Neither direction looks into the
bytes: one compares the layouts the encoder computed, the other decodes both buffers. -/

namespace Npb
set_option autoImplicit false
open Effects Numpy

variable {σ : Type}

section Forms
variable {J : JsonForm} {m m' : Mem}

/-- What a leaf that has been read comes to in the container. -/
def LeafValue.form (J : JsonForm) : LeafValue → Tree LeafValue
  | .scalar s => (J.form s).map .scalar
  | v => .leaf v

theorem formOf_observe (t : Tree Leaf) :
    formOf J m t = (t.map (Leaf.observe m)).subst (LeafValue.form J) := by
  rw [formOf, Tree.subst_map]
  refine Tree.subst_congr t fun l _ => ?_
  cases l <;> rfl

theorem formOf_of_observe {t t' : Tree Leaf}
    (h : t'.map (Leaf.observe m') = t.map (Leaf.observe m)) : formOf J m' t' = formOf J m t := by
  rw [formOf_observe, formOf_observe, h]

end Forms

/-- `encode` without an output or a store has made `binary` of a model that JSON carries. -/
structure Encoded (R : Runtime) (J : JsonForm) (model : Model) (w : World σ) (binary : Buffer)
    (w' : World σ) : Prop where
  leaves : ∀ l ∈ model.tree.leaves, l.Carried R w
  markers : NoMarkers model.tree
  json : ∀ manifest arrays n w₁,
    buildManifest none none model.modelDump w = .ok (manifest, arrays, n) w₁ →
    R.JsonStable J manifest
  run : encode R model none none none w = .ok binary w'

section Pairs
variable {R : Runtime} {J : JsonForm} {model₁ model₂ : Model} {w₁ w₁' w₂ w₂' : World σ}
  {b₁ b₂ : Buffer} {pt₁ pt₂ : Tree Placed} {s₁ s₂ : Scan σ} {a₁ a₂ : Analysis}

/-- Models of one form are laid out alike, and their metadata is the same text. -/
theorem Described.sameForm (h₁ : Described R J model₁ w₁ pt₁ s₁ a₁)
    (h₂ : Described R J model₂ w₂ pt₂ s₂ a₂)
    (hid : schemaIdentity model₂.cls = schemaIdentity model₁.cls)
    (hform : formOf J w₂.mem model₂.tree = formOf J w₁.mem model₁.tree) :
    a₁.SameForm a₂ w₁.mem w₂.mem := by
  have hidentity := h₂.identity
  rw [hid, h₁.identity] at hidentity
  obtain ⟨hschemaId, hschemaVersion⟩ := Prod.mk.inj (Except.ok.inj hidentity)
  have hlay₁ := placeTree_form J w₁.mem h₁.places
  have hlay₂ := placeTree_form J w₂.mem h₂.places
  rw [hform, hlay₁] at hlay₂
  obtain ⟨hmanifest, hforms⟩ := EStateM.Result.ok.inj hlay₂
  obtain ⟨harrays, hcursor⟩ := FormScan.mk.inj hforms
  have hmetadata : a₂.metadataJson = a₁.metadataJson :=
    Except.ok.inj ((h₂.writes _ rfl).symm.trans (h₁.writes _ hmanifest.symm))
  have hstart₁ : a₁.dataStart = alignUp (headerSize + a₁.metadataJson.length) frameSize :=
    congrArg Analysis.dataStart h₁.analysis
  have hstart₂ : a₂.dataStart = alignUp (headerSize + a₂.metadataJson.length) frameSize :=
    congrArg Analysis.dataStart h₂.analysis
  have hbytes₁ : a₁.dataBytes = s₁.cursor := congrArg Analysis.dataBytes h₁.analysis
  have hbytes₂ : a₂.dataBytes = s₂.cursor := congrArg Analysis.dataBytes h₂.analysis
  have harrays₁ : a₁.arrays = s₁.arrays := congrArg Analysis.arrays h₁.analysis
  have harrays₂ : a₂.arrays = s₂.arrays := congrArg Analysis.arrays h₂.analysis
  refine ⟨hschemaId.symm, hschemaVersion.symm, ?_, ?_, hmetadata, ?_⟩
  · rw [hbytes₁, hbytes₂]
    exact hcursor.symm
  · rw [hstart₁, hstart₂, hmetadata]
  · rw [harrays₁, harrays₂]
    exact harrays.symm

/-- Buffers of containers that are laid out alike have the same bytes. -/
theorem Published.bytes_eq (h₁ : Published w₁' b₁ a₁ w₁.mem) (h₂ : Published w₂' b₂ a₂ w₂.mem)
    (hform : a₁.SameForm a₂ w₁.mem w₂.mem) : b₂.bytes w₂'.mem = b₁.bytes w₁'.mem := by
  have hholds : Holds w₂'.mem b₂ a₁ w₁.mem := h₂.holds.of_form hform h₁.holds.laid
  have hsize : b₂.size = a₁.totalSize := h₂.size.trans hform.totalSize
  rw [Buffer.bytes, Buffer.bytes, hsize, h₁.size]
  exact h₁.holds.read_eq hholds

theorem copied_of_bytes {m m' : Mem} (h : b₂.bytes m' = b₁.bytes m) : Copied m b₁ m' b₂ where
  size := by
    have hlength := congrArg List.length h
    rwa [Buffer.bytes, Buffer.bytes, Mem.read_length, Mem.read_length] at hlength
  bytes := h

theorem Copied.info_eq (h : Copied w₁'.mem b₁ w₂'.mem b₂) (h₁ : Published w₁' b₁ a₁ w₁.mem)
    (h₂ : Published w₂' b₂ a₂ w₂.mem) : a₂.info = a₁.info := by
  have hparse := h.parse
  rw [parseHeaderIn_container h₁.holds.framed, parseHeaderIn_container h₂.holds.framed] at hparse
  exact Except.ok.inj hparse

/-- Models whose containers have the same bytes have the same form. -/
theorem Copied.form_eq (h : Copied w₁'.mem b₁ w₂'.mem b₂) (h₁ : Described R J model₁ w₁ pt₁ s₁ a₁)
    (h₂ : Described R J model₂ w₂ pt₂ s₂ a₂) (hb₁ : Published w₁' b₁ a₁ w₁.mem)
    (hb₂ : Published w₂' b₂ a₂ w₂.mem) :
    formOf J w₂.mem model₂.tree = formOf J w₁.mem model₁.tree := by
  obtain ⟨kvs₁, hkvs₁⟩ := h₁.decodesTo b₁
  obtain ⟨kvs₂, hkvs₂⟩ := h₂.decodesTo b₂
  have halike := h.decodeAuto (R := R) true true
  rw [hkvs₁.decodeAuto h₁ hb₁.holds.framed, hkvs₂.decodeAuto h₂ hb₂.holds.framed] at halike
  rw [← hkvs₁.form h₁ hb₁.holds, ← hkvs₂.form h₂ hb₂.holds]
  cases halike with
  | ok _ hsame => exact formOf_of_observe hsame

end Pairs

/-- Two models are encoded to the same bytes exactly when they have the same schema identity and
the same form: the same scalars, up to what JSON makes of them, and arrays of the same content,
wherever and in whatever order of strides they lie. -/
theorem encode_canonical {R : Runtime} {J : JsonForm} {model₁ model₂ : Model}
    {w₁ w₁' w₂ w₂' : World σ} {b₁ b₂ : Buffer} (hfresh : R.AllocatesFresh)
    (h₁ : Encoded R J model₁ w₁ b₁ w₁') (h₂ : Encoded R J model₂ w₂ b₂ w₂') :
    b₂.bytes w₂'.mem = b₁.bytes w₁'.mem ↔
      schemaIdentity model₂.cls = schemaIdentity model₁.cls ∧
        formOf J w₂.mem model₂.tree = formOf J w₁.mem model₁.tree := by
  obtain ⟨pt₁, s₁, a₁, hd₁, hb₁⟩ := encode_described hfresh h₁.leaves h₁.markers h₁.json h₁.run
  obtain ⟨pt₂, s₂, a₂, hd₂, hb₂⟩ := encode_described hfresh h₂.leaves h₂.markers h₂.json h₂.run
  constructor
  · intro hbytes
    have hcopied := copied_of_bytes hbytes
    have hinfo := hcopied.info_eq hb₁ hb₂
    have hschemaId : a₂.schemaId = a₁.schemaId := congrArg BinaryInfo.schemaId hinfo
    have hschemaVersion : a₂.schemaVersion = a₁.schemaVersion :=
      congrArg BinaryInfo.schemaVersion hinfo
    refine ⟨?_, hcopied.form_eq hd₁ hd₂ hb₁ hb₂⟩
    rw [hd₂.identity, hd₁.identity, hschemaId, hschemaVersion]
  · rintro ⟨hid, hform⟩
    exact hb₁.bytes_eq hb₂ (hd₁.sameForm hd₂ hid hform)

section Samples

theorem encoded_oneArray (m : Mem) : ∃ binary w,
    Encoded oneArrayRuntime.careful .same oneArray (oneArrayIn m) binary w := by
  obtain ⟨binary, w, hrun, -⟩ := encode_oneArray m
  exact ⟨binary, w, carried_oneArray m, noMarkers_oneArray, jsonStable_oneArray m, hrun⟩

theorem formOf_oneArray (m : Mem) :
    formOf .same m oneArray.tree = .dict [("x", .leaf (.array (oneElement.content m)))] := rfl

/-- Other bytes in the array make another container, other bytes elsewhere make the same one. -/
theorem encode_canonical_oneArray : ∃ b₁ w₁ b₂ w₂ b₃ w₃,
    encode oneArrayRuntime.careful oneArray none none none oneArrayWorld = .ok b₁ w₁ ∧
    encode oneArrayRuntime.careful oneArray none none none (oneArrayIn fun _ => 255) =
      .ok b₂ w₂ ∧
    encode oneArrayRuntime.careful oneArray none none none
      (oneArrayIn fun x => if x < 8 then oneArrayWorld.mem x else 255) = .ok b₃ w₃ ∧
    b₂.bytes w₂.mem ≠ b₁.bytes w₁.mem ∧ b₃.bytes w₃.mem = b₁.bytes w₁.mem := by
  obtain ⟨b₁, w₁, h₁⟩ := encoded_oneArray oneArrayWorld.mem
  obtain ⟨b₂, w₂, h₂⟩ := encoded_oneArray fun _ => 255
  obtain ⟨b₃, w₃, h₃⟩ := encoded_oneArray fun x => if x < 8 then oneArrayWorld.mem x else 255
  refine ⟨b₁, w₁, b₂, w₂, b₃, w₃, h₁.run, h₂.run, h₃.run, ?_, ?_⟩
  · intro hbytes
    have hform := ((encode_canonical (careful_fresh _) h₁ h₂).mp hbytes).2
    have hcontent : oneElement.content (fun _ => 255) = oneElement.content oneArrayWorld.mem := by
      injection hform with hitems
      injection hitems with hitem
      injection hitem with hkey hleaf
      injection hleaf with hvalue
      injection hvalue
    exact absurd hcontent (by decide)
  · refine (encode_canonical (careful_fresh _) h₁ h₃).mpr ⟨rfl, ?_⟩
    rw [formOf_oneArray, formOf_oneArray, NdArray.content_congr oneElement fun x hx => ?_]
    exact if_pos (touches_oneElement hx).2

end Samples

end Npb
