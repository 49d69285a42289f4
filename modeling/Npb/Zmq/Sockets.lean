import Npb.Codec.Relocation
import Npb.Codec.Republish
import Npb.Foundations.Channels

/-! # Models over ZeroMQ

`send`, `recv`, `send_model` and `recv_model`. A message is the bytes that the sender's array had
when it was sent; the receiver decodes them in its own memory. Any number of processes send and
receive models in any order, and change whatever they like in their memory meanwhile: on every link
the models are received as they were sent, in this order, each of them once (`delivery`). -/

namespace Npb.Zmq
set_option autoImplicit false
open Effects Numpy Channels

variable {σ : Type}

/-! ## A socket -/

section Socket
variable (R : Runtime)

/-- `send(binary)`: the bytes that the socket copies, and their number. -/
def send (binary : Argument) : Py σ (List UInt8 × ℕ) := do
  let b ← fromExcept (requireBinaryArray binary)
  let w ← get
  return (b.bytes w.mem, b.size)

/-- `recv()`: an array over the payload, which may not be written. -/
def recv (payload : List UInt8) : Py σ Argument := do
  let b ← empty R.alloc payload.length
  writeMem b.base payload
  return .array b.toArray false

def sendModel (model : Model) (blobStore : Option (BlobStore σ))
    (externalizeMinBytes : Option ℤ) : Py σ (List UInt8 × ℕ) := do
  let binary ← encode R model none blobStore externalizeMinBytes
  send (.array binary.toArray true)

def recvModel {α : Type} (cls : ModelClass) (modelValidate : List (String × Tree Leaf) → Py σ α)
    (blobStore : Option (BlobStore σ)) (payload : List UInt8) : Py σ α := do
  let binary ← recv R payload
  decode R cls modelValidate binary blobStore

end Socket

/-! ## Sending and receiving -/

/-- In whatever memory they lie, these bytes decode to a tree of this form. -/
def Delivers (R : Runtime) (J : JsonForm) (cls : ModelClass) (payload : List UInt8)
    (form : Tree LeafValue) : Prop :=
  ∀ (σ : Type) (b : Buffer) (v : World σ), b.bytes v.mem = payload →
    (∀ x, b.Contains x → v.live x = true) → ∃ kvs,
      (∀ (α : Type) (modelValidate : List (String × Tree Leaf) → Py σ α) (writeable : Bool),
        decode R cls modelValidate (.array b.toArray writeable) none v = modelValidate kvs v) ∧
      formOf J v.mem (.dict kvs) = form ∧ ∀ l ∈ (Tree.dict kvs).leaves, l.Held v

/-- A model that can be sent without a store: nothing in it is taken for a reference, and the JSON
library reads back what it writes. -/
structure Sendable (R : Runtime) (J : JsonForm) (model : Model) (w : World σ) : Prop where
  leaves : ∀ l ∈ model.tree.leaves, l.Carried R w
  markers : NoMarkers model.tree
  json : ∀ manifest arrays n w₁,
    buildManifest none none model.modelDump w = .ok (manifest, arrays, n) w₁ →
    R.JsonStable J manifest

section Messages
variable {R : Runtime} {J : JsonForm} {cls : ModelClass} {model : Model} {w w' : World σ}
  {payload : List UInt8} {form : Tree LeafValue}

theorem decode_writeable {α : Type} (modelValidate : List (String × Tree Leaf) → Py σ α)
    (b : Buffer) (blobStore : Option (BlobStore σ)) (writeable writeable' : Bool) :
    decode R cls modelValidate (.array b.toArray writeable) blobStore =
      decode R cls modelValidate (.array b.toArray writeable') blobStore := by
  rw [decode, decode, decodeChecked, decodeChecked, parseHeader, parseHeader,
    requireBinaryArray_toArray, requireBinaryArray_toArray]

theorem published_copy {τ : Type} {a : Analysis} {m₀ : Mem} {b b' : Buffer} {v : World τ}
    (h : Published w b a m₀) (hbytes : b'.bytes v.mem = b.bytes w.mem)
    (hlive : ∀ x, b'.Contains x → v.live x = true) : Published v b' a m₀ := by
  obtain ⟨⟨hlaid, hstart, hroom, header, hhead, hread⟩, hsize, -⟩ := h
  have hlength := congrArg List.length hbytes
  rw [Buffer.bytes, Buffer.bytes, Mem.read_length, Mem.read_length, hsize] at hlength
  rw [Buffer.bytes, Buffer.bytes, hlength, hsize, hread] at hbytes
  exact ⟨⟨hlaid, hstart, hlength.ge, header, hhead, hbytes⟩, hlength, hlive⟩

/-- What has been sent delivers the model as it was then. -/
theorem sendModel_delivers (hfresh : R.AllocatesFresh) (hsendable : Sendable R J model w) {n : ℕ}
    (h : sendModel R model none none w = .ok (payload, n) w') :
    Delivers R J model.cls payload (formOf J w.mem model.tree) ∧ n = payload.length := by
  obtain ⟨binary, w₁, hencode, hsend⟩ := bind_eq_ok.mp h
  rw [send, requireBinaryArray_toArray, fromExcept_ok_bind, bind_ok (get_run w₁)] at hsend
  cases hsend
  obtain ⟨pt, s, a, hdescribed, hpublished⟩ :=
    encode_described hfresh hsendable.leaves hsendable.markers hsendable.json hencode
  refine ⟨fun τ b v hbytes hlive => ?_, (Mem.read_length ..).symm⟩
  obtain ⟨kvs, hdecode, hform, hheld⟩ := decode_form (published_copy hpublished hbytes hlive)
    hdescribed.markers hdescribed.reads hdescribed.identity hdescribed.source hdescribed.inlined
  refine ⟨kvs, fun α modelValidate writeable => ?_, hform, hheld⟩
  rw [decode_writeable modelValidate b none writeable true, hdecode]

/-- The payload lies in new memory, or there was none for it. -/
theorem recv_run (hfresh : R.AllocatesFresh) (payload : List UInt8) (w : World σ) :
    (∃ (b : Buffer) (w' : World σ), recv R payload w = .ok (.array b.toArray false) w' ∧
      b.bytes w'.mem = payload ∧ (∀ x, b.Contains x → w'.live x = true) ∧ w.Extends w') ∨
    ∃ e, recv R payload w = .error e w := by
  rw [recv]
  cases hempty : empty R.alloc payload.length w with
  | error e w₁ =>
    have hsame : w₁ = w := by
      unfold empty at hempty
      split at hempty
      · split at hempty <;> cases hempty
        rfl
      · cases hempty
        rfl
    subst hsame
    exact .inr ⟨e, bind_error hempty _⟩
  | ok b w₁ =>
    obtain ⟨p, hlt, halloc, rfl, rfl⟩ := empty_eq_ok.mp hempty
    refine .inl ⟨⟨p, payload.length, hlt⟩, _, bind_ok hempty _, Buffer.bytes_write _ _ _ rfl, ?_,
      ?_⟩
    · rintro x ⟨hlo, hhi⟩
      simp [hlo, show x < p + payload.length from hhi]
    · intro x hx
      refine ⟨by simp [hx], Mem.write_of_not_mem _ _ _ ?_⟩
      dsimp only
      by_contra hin
      have hdead := hfresh _ _ _ halloc x (by omega) (by omega)
      exact absurd hx (by simp [hdead])

/-- What is received looks like what was sent, or there was no memory for it. -/
theorem recvModel_delivers {α : Type} (hfresh : R.AllocatesFresh)
    (hdelivers : Delivers R J cls payload form)
    (modelValidate : List (String × Tree Leaf) → Py σ α) (w : World σ) :
    (∃ kvs w', recvModel R cls modelValidate none payload w = modelValidate kvs w' ∧
      formOf J w'.mem (.dict kvs) = form ∧ (∀ l ∈ (Tree.dict kvs).leaves, l.Held w') ∧
      w.Extends w') ∨
    ∃ e, recv R payload w = .error e w := by
  obtain ⟨b, w', hrecv, hbytes, hlive, hextends⟩ | ⟨e, hrecv⟩ := recv_run hfresh payload w
  · obtain ⟨kvs, hdecode, hform, hheld⟩ := hdelivers σ b w' hbytes hlive
    refine .inl ⟨kvs, w', ?_, hform, hheld, hextends⟩
    rw [recvModel, bind_ok hrecv]
    exact hdecode α modelValidate false
  · exact .inr ⟨e, hrecv⟩

end Messages

/-! ## Processes and links -/

structure Network (P L σ : Type) where
  worlds : P → World σ
  links : L → List (List UInt8)

/-- What can be seen of a step: a model that is sent, or what `decode` hands to `model_validate`. -/
inductive Happening (P L : Type) where
  | sent (p : P) (l : L) (form : Tree LeafValue)
  | received (p : P) (l : L) (outcome : Except PyError (Tree LeafValue))
  | worked (p : P)

section Network
variable {P L : Type} [DecidableEq L] {R : Runtime} {J : JsonForm} {cls : L → ModelClass}
  {queues : L → List (Tree LeafValue)}

/-- The item that is put on a link or taken from it, as its form. -/
def move : Happening P L → Move L (Tree LeafValue)
  | .sent _ l form => .push l form
  | .received _ l (.ok form) => .pop l form
  | _ => .idle

def sentOn (l : L) : Happening P L → Option (Tree LeafValue)
  | .sent _ k form => if k = l then some form else none
  | _ => none

def receivedOn (l : L) : Happening P L → Option (Except PyError (Tree LeafValue))
  | .received _ k outcome => if k = l then some outcome else none
  | _ => none

/-- The payloads on every link deliver these forms. -/
def Loaded (R : Runtime) (J : JsonForm) (cls : L → ModelClass) (links : L → List (List UInt8))
    (queues : L → List (Tree LeafValue)) : Prop :=
  ∀ l, List.Forall₂ (Delivers R J (cls l)) (links l) (queues l)

theorem Loaded.update {links : L → List (List UInt8)} (h : Loaded R J cls links queues) (l : L)
    {payloads : List (List UInt8)} {forms : List (Tree LeafValue)}
    (hl : List.Forall₂ (Delivers R J (cls l)) payloads forms) :
    Loaded R J cls (Function.update links l payloads) (Function.update queues l forms) := by
  intro k
  by_cases hk : k = l
  · subst hk
    simpa using hl
  · simpa [Function.update_of_ne hk] using h k

/-- How a decoded tree looks. -/
def seen (J : JsonForm) : EStateM.Result PyError (World σ) (List (String × Tree Leaf)) →
    Except PyError (Tree LeafValue)
  | .ok kvs w => .ok (formOf J w.mem (.dict kvs))
  | .error e _ => .error e

variable [DecidableEq P]

/-- A process sends a model, receives one, or does anything at all in its memory. -/
inductive Step (R : Runtime) (J : JsonForm) (cls : L → ModelClass) (s : Network P L σ) :
    Happening P L → Network P L σ → Prop
  | send (p : P) (l : L) (model : Model) (payload : List UInt8) (n : ℕ) (w : World σ)
    (hcls : model.cls = cls l) (hsendable : Sendable R J model (s.worlds p))
    (hsend : sendModel R model none none (s.worlds p) = .ok (payload, n) w) :
    Step R J cls s (.sent p l (formOf J (s.worlds p).mem model.tree))
      ⟨Function.update s.worlds p w, Function.update s.links l (s.links l ++ [payload])⟩
  /-- There is memory for what has arrived. -/
  | receive (p : P) (l : L) (payload : List UInt8) (rest : List (List UInt8))
    (harrived : s.links l = payload :: rest)
    (hroom : ∃ arg w, recv R payload (s.worlds p) = .ok arg w) :
    Step R J cls s
      (.received p l (seen J (recvModel R (cls l) pure none payload (s.worlds p))))
      ⟨Function.update s.worlds p
        (finalState (recvModel R (cls l) pure none payload (s.worlds p))),
        Function.update s.links l rest⟩
  | work (p : P) (w : World σ) :
    Step R J cls s (.worked p) ⟨Function.update s.worlds p w, s.links⟩

variable {s s' : Network P L σ}

/-- A step moves one model at most, and whatever is received is what the payload delivers. -/
theorem Loaded.step (h : Loaded R J cls s.links queues) (hfresh : R.AllocatesFresh)
    {e : Happening P L} (hstep : Step R J cls s e s') :
    ∃ queues', Moves queues (move e) queues' ∧ Loaded R J cls s'.links queues' ∧
      ∀ l, receivedOn l e = (popped l (move e)).map .ok ∧ sentOn l e = pushed l (move e) := by
  cases hstep with
  | send p l model payload n w hcls hsendable hsend =>
    have hdelivers := (sendModel_delivers hfresh hsendable hsend).1
    rw [hcls] at hdelivers
    refine ⟨_, .push l _, h.update l ?_, fun k => ⟨rfl, rfl⟩⟩
    exact List.rel_append (h l) (.cons hdelivers .nil)
  | receive p l payload rest harrived hroom =>
    have hl := h l
    rw [harrived] at hl
    obtain ⟨form, forms, hdelivers, hrest, hqueue⟩ := List.forall₂_cons_left_iff.mp hl
    obtain ⟨kvs, w, hrun, hform, -, -⟩ | ⟨e, hrun⟩ :=
      recvModel_delivers hfresh hdelivers pure (s.worlds p)
    · rw [hrun]
      have hseen : seen J ((pure kvs : Py σ _) w) = .ok form := congrArg Except.ok hform
      rw [hseen]
      refine ⟨_, .pop l form forms hqueue, h.update l hrest, fun k => ⟨?_, rfl⟩⟩
      by_cases hk : l = k <;> simp [receivedOn, popped, move, hk]
    · obtain ⟨arg, w, harg⟩ := hroom
      cases harg.symm.trans hrun
  | work p w => exact ⟨queues, .idle, h, fun k => ⟨rfl, rfl⟩⟩

/-- On every link the models are received in the order in which they were sent, each of them once
and as it was when it was sent; those that are still on the link are the last ones. -/
theorem delivery (hfresh : R.AllocatesFresh) {worlds : P → World σ}
    {events : List (Happening P L)} (hrun : Run (Step R J cls) ⟨worlds, fun _ => []⟩ events s)
    (l : L) :
    ∃ inFlight : List (Tree LeafValue), events.filterMap (receivedOn l) ++ inFlight.map .ok =
      (events.filterMap (sentOn l)).map .ok ∧ inFlight.length = (s.links l).length := by
  obtain ⟨queues, hmoves, hloaded, hseen⟩ : ∃ queues : L → List (Tree LeafValue),
      Run Moves (fun _ => []) (events.map move) queues ∧ Loaded R J cls s.links queues ∧
        ∀ e ∈ events, ∀ l, receivedOn l e = (popped l (move e)).map .ok ∧
          sentOn l e = pushed l (move e) := by
    refine hrun.history (I := fun events s => ∃ queues : L → List (Tree LeafValue),
      Run Moves (fun _ => []) (events.map move) queues ∧ Loaded R J cls s.links queues ∧
        ∀ e ∈ events, ∀ l, receivedOn l e = (popped l (move e)).map .ok ∧
          sentOn l e = pushed l (move e)) ⟨_, .nil, fun _ => .nil, nofun⟩ ?_
    rintro events e s s' - ⟨queues, hmoves, hloaded, hseen⟩ hstep
    obtain ⟨queues', hmove, hloaded', hlast⟩ := hloaded.step hfresh hstep
    refine ⟨queues', ?_, hloaded', fun e' he' => ?_⟩
    · rw [List.map_append]
      exact hmoves.snoc hmove
    · obtain he' | he' := List.mem_append.mp he'
      · exact hseen e' he'
      · cases List.mem_singleton.mp he'
        exact hlast
  have hfifo := fifo hmoves l
  rw [List.nil_append, List.filterMap_map, List.filterMap_map] at hfifo
  have hsent : events.filterMap (sentOn l) = events.filterMap (pushed l ∘ move) :=
    List.filterMap_congr fun e he => (hseen e he l).2
  have hreceived : events.filterMap (receivedOn l) =
      (events.filterMap (popped l ∘ move)).map .ok := by
    rw [List.map_filterMap]
    exact List.filterMap_congr fun e he => (hseen e he l).1
  refine ⟨queues l, ?_, (hloaded l).length_eq.symm⟩
  rw [hsent, hreceived, hfifo, List.map_append]

end Network

/-! ## One array, from one process to another -/

section Sample

/-- The receiver has nothing in its memory yet. -/
def blankWorld : World Unit := ⟨fun _ => 0, fun _ => false, ()⟩

def sampleNetwork : Network Bool Unit Unit :=
  ⟨fun receiver => if receiver then blankWorld else oneArrayWorld, fun _ => []⟩

theorem sendable_oneArray : Sendable oneArrayRuntime.careful .same oneArray oneArrayWorld where
  leaves := carried_oneArray oneArrayWorld.mem
  markers := noMarkers_oneArray
  json := jsonStable_oneArray oneArrayWorld.mem

theorem sendModel_oneArray : ∃ payload w, payload.length = 131072 ∧
    sendModel oneArrayRuntime.careful oneArray none none oneArrayWorld =
      .ok (payload, payload.length) w := by
  obtain ⟨binary, w, hencode, hpublished⟩ := encode_oneArray oneArrayWorld.mem
  have hencode : encode oneArrayRuntime.careful oneArray none none none oneArrayWorld =
      .ok binary w := hencode
  have hlength : (binary.bytes w.mem).length = binary.size := Mem.read_length ..
  refine ⟨binary.bytes w.mem, w, ?_, ?_⟩
  · rw [hlength, hpublished.size, totalSize_oneArray]
  · rw [sendModel, bind_ok hencode, send, requireBinaryArray_toArray, fromExcept_ok_bind,
      bind_ok (get_run w), hlength]
    rfl

theorem recv_blank {payload : List UInt8} (hlt : payload.length < 2 ^ 63) :
    ∃ arg w, recv oneArrayRuntime.careful payload blankWorld = .ok arg w := by
  have halloc : oneArrayRuntime.careful.alloc blankWorld.live payload.length = some 4096 :=
    if_pos (List.all_eq_true.mpr fun _ _ => rfl)
  exact ⟨_, _, bind_ok (empty_eq_ok.mpr ⟨4096, hlt, halloc, rfl, rfl⟩) _⟩

/-- One process sends the array, the other one receives it. -/
theorem delivery_oneArray : ∃ (outcome : Except PyError (Tree LeafValue))
    (inFlight : List (Tree LeafValue)),
    [outcome] ++ inFlight.map .ok = [.ok (formOf .same oneArrayWorld.mem oneArray.tree)] ∧
      inFlight.length = 0 := by
  obtain ⟨payload, w, hlength, hsend⟩ := sendModel_oneArray
  have hsent : Step oneArrayRuntime.careful .same (fun _ => oneArray.cls) sampleNetwork _ _ :=
    .send false () oneArray payload _ w rfl sendable_oneArray hsend
  have hreceived : Step oneArrayRuntime.careful .same (fun _ => oneArray.cls)
      (⟨Function.update sampleNetwork.worlds false w,
        Function.update sampleNetwork.links () ([] ++ [payload])⟩ : Network Bool Unit Unit) _ _ :=
    .receive true () payload [] rfl (recv_blank (by omega))
  obtain ⟨inFlight, hall, hnone⟩ :=
    delivery (careful_fresh _) ((Run.single hsent).snoc hreceived) ()
  exact ⟨_, inFlight, hall, hnone⟩

end Sample
end Npb.Zmq
