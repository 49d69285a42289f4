import Npb.Chain.Safety
import Npb.Zmq.Sockets

/-! # The messages of the chain

A message is a model with a JSON tree and no array in it. What the codec makes of one in the memory
of one process, it decodes to the same message in that of another (`codecWire`), so that the chain
is safe over the codec and the sockets themselves (`codec_safe`). -/

namespace Npb.Chain
open Effects Numpy Zmq
set_option autoImplicit false

/-! ## Models -/

/-- What `model_dump` gives for a message. -/
def ChainMessage.document (m : ChainMessage) : Json := .dict [
  ("frame_id", .leaf (.int m.frameId)),
  ("sequence", .leaf (.int m.sequence)),
  ("stage", .leaf (.int m.stage)),
  ("meta", .dict m.info.items),
  ("image", .dict [
    ("object_id", .leaf (.str m.image.objectId)),
    ("token", .leaf (.str m.image.token)),
    ("generation", .leaf (.int m.image.generation))])]

/-- The message as a model of the class `ChainMessage`. -/
def ChainMessage.model (cls : ModelClass) (m : ChainMessage) : Model where
  cls := cls
  fields := match Value.ofTree (m.document.map .scalar) with
    | .dict kvs => kvs
    | _ => []

theorem ChainMessage.tree_model (cls : ModelClass) (m : ChainMessage) :
    (m.model cls).tree = m.document.map .scalar := Value.listed_ofTree (m.document.map .scalar)

/-- `meta` tells the purpose and holds scalars only. -/
theorem ChainMessage.Made.info {m : ChainMessage} (h : m.Made) :
    (∃ purpose, ("purpose", purpose) ∈ m.info.items) ∧
      ∀ e ∈ m.info.items, ∃ s, e.2 = .leaf s := by
  induction h with
  | new frameId sequence ref =>
    refine ⟨⟨_, List.mem_singleton_self _⟩, fun e he => ?_⟩
    rw [List.mem_singleton.mp he]
    exact ⟨_, rfl⟩
  | passed m stage h ih =>
    obtain ⟨⟨purpose, hpurpose⟩, hscalars⟩ := ih
    have hkey : "purpose" ≠ "last_stage" := by decide
    refine ⟨⟨purpose, Dict.mem_set.mpr (.inr ⟨hpurpose, hkey⟩)⟩, fun e he => ?_⟩
    obtain rfl | ⟨he, -⟩ := Dict.mem_set.mp he
    · exact ⟨_, rfl⟩
    · exact hscalars e he

theorem ChainMessage.Made.noMarkers {m : ChainMessage} (h : m.Made) : NoMarkers m.document := by
  obtain ⟨⟨purpose, hpurpose⟩, hscalars⟩ := h.info
  have hkeys : ∀ key, m.info.items.map Prod.fst = [key] → key = "purpose" := fun key hkey => by
    have hmem : "purpose" ∈ m.info.items.map Prod.fst := List.mem_map_of_mem hpurpose
    rw [hkey, List.mem_singleton] at hmem
    exact hmem.symm
  have hinfo : Tree.EveryDictItems
      (fun kvs => kvs.map Prod.fst ≠ ["$bin"] ∧ kvs.map Prod.fst ≠ ["$blob"]) m.info.items := by
    refine (Tree.everyDictItems_iff _).mpr fun e he => ?_
    obtain ⟨s, hs⟩ := hscalars e he
    rw [hs]
    trivial
  refine ⟨by simp, trivial, trivial, trivial, ⟨⟨fun hbin => ?_, fun hblob => ?_⟩, hinfo⟩,
    ⟨by simp, trivial, trivial, trivial, trivial⟩, trivial⟩
  · exact absurd (hkeys _ hbin) (by decide)
  · exact absurd (hkeys _ hblob) (by decide)

theorem buildManifest_scalars {σ : Type} {v : Value} {document : Json}
    (h : v.listed = document.map .scalar) (w : World σ) :
    buildManifest none none v w = .ok (document, [], 0) w := by
  have hplace : placeTree (none : Option (BlobStore σ)) none (document.map .scalar) ⟨w, [], 0⟩ =
      .ok (document.map .scalar) ⟨w, [], 0⟩ := by
    rw [placeTree, Tree.bindM_map]
    exact Tree.bindM_pure document fun s _ => rfl
  have hrender : (document.map Placed.scalar).subst Placed.render = document := by
    rw [Tree.subst_map]
    exact Tree.map_id document
  rw [buildManifest_run, h, hplace]
  simp only [hrender]

/-! ## The codec as a wire -/

section Codec
variable {R : Runtime} {J : JsonForm} {cls : ModelClass}

/-- `model_validate` returns the message whose dump a tree looks like. -/
def Validates (J : JsonForm)
    (modelValidate : List (String × Tree Leaf) → Py Unit ChainMessage) : Prop :=
  ∀ m : ChainMessage, m.Made → ∀ kvs (v : World Unit),
    formOf J v.mem (.dict kvs) = formOf J v.mem (m.document.map .scalar) →
    ∃ v', modelValidate kvs v = .ok m v'

/-- The JSON library reads back what it writes for the messages. -/
def Reads (R : Runtime) (J : JsonForm) : Prop :=
  ∀ m : ChainMessage, m.Made → R.JsonStable J m.document

theorem ChainMessage.Made.sendable {σ : Type} {m : ChainMessage} (h : m.Made) (hreads : Reads R J)
    (w : World σ) : Sendable R J (m.model cls) w where
  leaves := by
    intro l hl
    rw [tree_model, Tree.leaves_map] at hl
    obtain ⟨s, -, rfl⟩ := List.mem_map.mp hl
    trivial
  markers := by
    rw [tree_model]
    exact (noMarkers_map _ _).mpr h.noMarkers
  json := by
    intro manifest arrays n w₁ hbuild
    rw [buildManifest_scalars (tree_model cls m)] at hbuild
    cases hbuild
    exact hreads m h

theorem ChainMessage.form_eq (J : JsonForm) (m : ChainMessage) (mem mem' : Mem) :
    formOf J mem (m.document.map .scalar) = formOf J mem' (m.document.map .scalar) := by
  rw [formOf, formOf, Tree.subst_map, Tree.subst_map]
  rfl

/-- `encode` and `send` in one process, `recv` and `decode` in another, in any memory that has room
for what is received. -/
def codecWire (R : Runtime) (J : JsonForm) (cls : ModelClass)
    (modelValidate : List (String × Tree Leaf) → Py Unit ChainMessage) (hfresh : R.AllocatesFresh)
    (hreads : Reads R J) (hvalidates : Validates J modelValidate) :
    Wire ChainMessage (List UInt8) where
  encodes m payload := m.Made ∧ ∃ (w w' : World Unit) (n : ℕ),
    sendModel R (m.model cls) none none w = .ok (payload, n) w'
  decodes payload r := ∃ (w w' : World Unit) (arg : Argument), recv R payload w = .ok arg w' ∧
    r = match recvModel R cls modelValidate none payload w with
      | .ok m _ => .ok m
      | .error e _ => .error e
  faithful := by
    rintro m payload r ⟨hmade, w, w', n, hsend⟩ ⟨v, v', arg, hrecv, hr⟩
    have hdelivers : Delivers R J cls payload _ :=
      (sendModel_delivers hfresh (hmade.sendable hreads w) hsend).1
    obtain ⟨kvs, v'', hrun, hform, -, -⟩ | ⟨e, hnone⟩ :=
      recvModel_delivers hfresh hdelivers modelValidate v
    · rw [ChainMessage.tree_model, m.form_eq J w.mem v''.mem] at hform
      obtain ⟨v₃, hvalidate⟩ := hvalidates m hmade kvs v'' hform
      rw [hr, hrun, hvalidate]
    · cases hrecv.symm.trans hnone

theorem codec_safe {modelValidate : List (String × Tree Leaf) → Py Unit ChainMessage}
    (hfresh : R.AllocatesFresh) (hreads : Reads R J) (hvalidates : Validates J modelValidate)
    {setup : Setup} {objects : String → Option SharedArray} {events : List Event}
    {s : State (List UInt8)}
    (hrun : Run (Step setup (codecWire R J cls modelValidate hfresh hreads hvalidates))
      (State.init objects) events s) : Safe setup s :=
  (inv_run hrun).safe

end Codec
end Npb.Chain
