import Npb.Codec.Collision
import Npb.Codec.Threshold
import Npb.Vineyard.Measuring
import Npb.Vineyard.Resolved

/-! # Hops

A stage of a pipeline decodes a container with a `VineyardStore` of its own and encodes the model
again. The arrays at or above the threshold are those its store has resolved, so no stage creates an
object (`chain_objects`). -/

namespace Npb.Vineyard
set_option autoImplicit false
open Effects Numpy

variable {O C : Type}

/-- A stage: its store, the class it decodes with, and where it encodes to. -/
structure Stage (O C : Type) where
  store : VineyardStore O C
  cls : ModelClass
  modelValidate : List (String × Tree Leaf) → Py (State C) Model
  out : Option Argument

/-- A new `VineyardStore` on the same daemon. -/
def renew (w : World (State C)) : World (State C) := { w with store := .new w.store.client }

section Hops
variable (R : Runtime) (t : ℤ)

/-- `encode(decode(cls, binary, blob_store=store), blob_store=store, externalize_min_bytes=t)` with
a new store. -/
def Stage.hop (g : Stage O C) (binary : Buffer) : Py (State C) Buffer := do
  modify renew
  let model ← decode R g.cls g.modelValidate (.array binary.toArray true)
    (some (blobStore g.store R))
  encode R model g.out (some (blobStore g.store R)) (some t)

/-- One stage after the other. -/
def chain : List (Stage O C) → Buffer → Py (State C) Buffer
  | [], binary => return binary
  | g :: stages, binary => do
    let binary' ← g.hop R t binary
    chain stages binary'

end Hops

/-- `model_validate` and `model_dump` leave the store alone and pass arrays through; they make no
mapping with `"$bin"` as its only key of a tree that has none. -/
structure Stage.Passes (g : Stage O C) : Prop where
  store : ∀ kvs v, (finalState (g.modelValidate kvs v)).store = v.store
  arrays : ∀ kvs v model v', g.modelValidate kvs v = .ok model v' →
    ∀ a ∈ arraysOf model.tree, a ∈ arraysOf (.dict kvs)
  unmarked : ∀ kvs v model v', g.modelValidate kvs v = .ok model v' →
    Unmarked (.dict kvs) → Unmarked model.tree

/-! ## One stage -/

section Stages
variable {R : Runtime} {J : JsonForm} {t : ℤ} {objects : C → O → Option Argument}
  {used : C → O → Prop} [DecidableEq O] {w w' : World (State C)}

theorem getArray_objects {V : VineyardStore O C} (hV : V.client.Lawful objects used)
    (ref : BlobRef) (w : World (State C)) :
    objects (finalState (getArray V R ref w)).store.client = objects w.store.client := by
  cases (getArray_effect (R := R) hV ref w).1 with
  | same hobjects htable => exact hobjects
  | created array o v he hfresh hobjects htable => cases he
  | resolved ref' array he hget hdenotes hobjects htable => exact hobjects
  | removed ref' o he hid hobjects htable => cases he

theorem getArray_registers {V : VineyardStore O C} (hV : V.client.Lawful objects used)
    {ref : BlobRef} {array : NdArray} (hget : getArray V R ref w = .ok array w') :
    (w'.store.resolvedRefs (key array)).isSome = true ∧
      ∀ b, (w.store.resolvedRefs (key b)).isSome = true →
        (w'.store.resolvedRefs (key b)).isSome = true := by
  have heffect := (getArray_effect (R := R) hV ref w).1
  rw [hget, finalState_ok] at heffect
  refine ⟨?_, fun b => heffect.registered⟩
  rw [getArray_registered hget]
  rfl

omit [DecidableEq O] in
/-- Encoding a model whose large arrays are registered creates nothing. -/
theorem encode_registered {V : VineyardStore O C} {model : Model} {out : Option Argument}
    (hheld : ∀ a ∈ arraysOf model.tree, (a.nbytes : ℤ) < t ∨
      (w.store.resolvedRefs (key a)).isSome = true) :
    (finalState (encode R model out (some (blobStore V R)) (some t) w)).store = w.store := by
  rw [encode_store]
  have hputs : ∀ a ∈ putArrays (some (blobStore V R)) (some t) model.tree.leaves,
      (w.store.resolvedRefs (key a)).isSome = true := by
    intro a ha
    obtain ⟨ha, hext⟩ := List.mem_filter.mp ha
    refine (hheld a (List.takeWhile_subset _ ha)).resolve_left ?_
    intro hbelow
    rw [externalStore_eq_none.mpr hbelow] at hext
    cases hext
  have hsame : finalState (analyzeModel R model (some (blobStore V R)) (some t) w) =
      finalState (encodedSize R model (some (blobStore V R)) (some t) w) := by
    rw [encodedSize, bind_run]
    cases analyzeModel R model (some (blobStore V R)) (some t) w <;> rfl
  rw [hsame]
  have hreuse : ∀ store, some (blobStore V R) = some store → ∀ (w : World (State C)) a,
      validateNdarray a = .ok () → (w.store.resolvedRefs (key a)).isSome = true →
      ∃ ref, store.putArray a w = .ok ref w := by
    intro store hstore w a hvalid hregistered
    cases hstore
    obtain ⟨ref, href⟩ := Option.isSome_iff_exists.mp hregistered
    exact ⟨ref, putArray_reused hvalid href⟩
  cases finalState_encodedSize R model (some (blobStore V R)) (some t) w with
  | inl h => rw [h.1]
  | inr h => rw [h.1, place_held hreuse model.tree.leaves ⟨w, [], 0⟩ hputs]

theorem Stage.decode_objects {g : Stage O C} (hV : g.store.client.Lawful objects used)
    (hg : g.Passes) (binary : Buffer) (w : World (State C)) :
    objects (finalState (decode R g.cls g.modelValidate (.array binary.toArray true)
      (some (blobStore g.store R)) w)).store.client = objects w.store.client := by
  refine bind_keeps (R := fun w w' : World (State C) =>
    objects w'.store.client = objects w.store.client) (fun _ _ _ h h' => h'.trans h) ?_ ?_
  · exact decodeChecked_keeps (Q := fun w w' : World (State C) =>
      objects w'.store.client = objects w.store.client) (fun _ => rfl)
      (fun _ _ _ h h' => h'.trans h) (fun ref w => getArray_objects hV ref w) _ _ w
  · intro kvs w' _
    rw [hg.store]

/-- What a stage has decoded below the threshold or else registered. -/
theorem Stage.decode_registered {g : Stage O C} (hV : g.store.client.Lawful objects used)
    (hg : g.Passes) {binary : Buffer} (h : HoldsBelow R t w.mem binary) {model : Model}
    (hrun : decode R g.cls g.modelValidate (.array binary.toArray true)
      (some (blobStore g.store R)) w = .ok model w') :
    Unmarked model.tree ∧ ∀ a ∈ arraysOf model.tree, (a.nbytes : ℤ) < t ∨
      (w'.store.resolvedRefs (key a)).isSome = true := by
  obtain ⟨kvs, w₁, hdecode, hvalidate⟩ := bind_eq_ok.mp hrun
  obtain ⟨hkeys, harrays⟩ := decodeAuto_below
    (K := fun w a => (w.store.resolvedRefs (key a)).isSome = true)
    (fun ref v a v' hget => getArray_registers hV hget) h (decodeChecked_ok hdecode)
  refine ⟨hg.unmarked _ _ _ _ hvalidate hkeys, ?_⟩
  intro a ha
  have hstore := hg.store kvs w₁
  rw [hvalidate, finalState_ok] at hstore
  rw [hstore]
  exact harrays a (hg.arrays _ _ _ _ hvalidate a ha)

theorem Stage.hop_objects {g : Stage O C} (hread : R.ReadsBack J)
    (hV : g.store.client.Lawful objects used) (hg : g.Passes) {binary : Buffer}
    (h : HoldsBelow R t w.mem binary) :
    objects (finalState (g.hop R t binary w)).store.client = objects w.store.client ∧
      ∀ binary' w', g.hop R t binary w = .ok binary' w' → HoldsBelow R t w'.mem binary' := by
  have hrun : g.hop R t binary w = (do
      let model ← decode R g.cls g.modelValidate (.array binary.toArray true)
        (some (blobStore g.store R))
      encode R model g.out (some (blobStore g.store R)) (some t)) (renew w) := rfl
  have hobjects := Stage.decode_objects (R := R) hV hg binary (renew w)
  rw [hrun, bind_run]
  cases hdecode : decode R g.cls g.modelValidate (.array binary.toArray true)
      (some (blobStore g.store R)) (renew w) with
  | error e v₁ =>
    rw [hdecode] at hobjects
    exact ⟨hobjects, nofun⟩
  | ok model v₁ =>
    rw [hdecode] at hobjects
    obtain ⟨hkeys, hheld⟩ := Stage.decode_registered hV hg (w := renew w) h hdecode
    refine ⟨?_, fun binary' w' hencode => encode_below hread hkeys hencode⟩
    dsimp only
    rw [encode_registered hheld]
    exact hobjects

/-- No stage creates an object, whatever comes of it. -/
theorem chain_objects (hread : R.ReadsBack J) {stages : List (Stage O C)}
    (hstages : ∀ g ∈ stages, g.store.client.Lawful objects used ∧ g.Passes) {binary : Buffer}
    (h : HoldsBelow R t w.mem binary) :
    objects (finalState (chain R t stages binary w)).store.client = objects w.store.client := by
  induction stages generalizing binary w with
  | nil => rfl
  | cons g stages ih =>
    obtain ⟨hV, hg⟩ := hstages g (List.mem_cons_self ..)
    obtain ⟨hobjects, hnext⟩ := Stage.hop_objects hread hV hg h
    rw [chain, bind_run]
    cases hrun : g.hop R t binary w with
    | error e w₁ =>
      rw [hrun] at hobjects
      exact hobjects
    | ok binary' w₁ =>
      rw [hrun] at hobjects
      have hrest := ih (fun g' hg' => hstages g' (List.mem_cons_of_mem _ hg')) (hnext _ _ hrun)
      exact hrest.trans hobjects

/-! ## Republishing -/

/-- An array that `get_array` returned for a non-empty reference is put back without the client, as
the same window of the same object; so stages that decode and encode with one threshold create no
object beyond those of the first `encode`. -/
theorem republish_never_copies (hblocks : R.PlainBlocks) (hread : R.ReadsBack J) :
    (∀ (V : VineyardStore O C) (w₀ w₁ w₂ w : World (State C)) (past later : List Event)
      (ref : BlobRef) (r : NdArray), V.client.Lawful objects used →
      (∀ k, w₀.store.resolvedRefs k = none) →
      (∀ ref', Event.delete ref' ∉ past ++ .get ref :: later) →
      (∀ ref', Event.get ref' ∈ past ++ .get ref :: later → ref'.check R = .ok ref') →
      Run (Step V R) w₀ past w₁ → getArray V R ref w₁ = .ok r w₂ → Run (Step V R) w₂ later w →
      Apart objects w.store.client → 0 < ref.nbytes →
      ∃ ref', Event.get ref' ∈ past ++ .get ref :: later ∧
        (∀ K : Client O C, putArray ⟨K, V.persistOnPut⟩ r w = .ok ref' w) ∧
        V.client.objectID ref'.objectId = V.client.objectID ref.objectId ∧
        ref'.offset = ref.offset ∧ ref'.nbytes = ref.nbytes ∧ ref'.shape = ref.shape) ∧
    (∀ (V : VineyardStore O C) (model : Model) (t : ℤ) (out : Option Argument)
      (w w' : World (State C)) (binary : Buffer) (stages : List (Stage O C)),
      Unmarked model.tree →
      encode R model out (some (blobStore V R)) (some t) w = .ok binary w' →
      (∀ g ∈ stages, g.store.client.Lawful objects used ∧ g.Passes) →
      objects (finalState (chain R t stages binary w')).store.client =
        objects w'.store.client) := by
  constructor
  · intro V w₀ w₁ w₂ w past later ref r hV hnew hlive hchecked hpast hget hlater hapart hpos
    exact putArray_resolved hblocks hV hnew hlive hchecked hpast hget hlater hapart hpos
  · intro V model t out w w' binary stages hmodel hencode hstages
    exact chain_objects hread hstages (encode_below hread hmodel hencode)

end Stages

/-! ## A chain over the client of the tests -/

section Held

/-- Where the stages encode to. -/
def hopBuffer : Buffer := ⟨2 ^ 32, 65536, by decide⟩

/-- The runtime, as far as `to_json` of one document goes. -/
def documentRuntime : Runtime := { heldRuntime with
  toJson := fun fallback j =>
    if j = .dict [("x", blobManifest heldRef)] then heldRuntime.toJson fallback j
    else .error (.typeError "value is not JSON serializable") }

theorem toJson_documentRuntime : documentRuntime.toJson jsonFallback
    (.dict [("x", blobManifest heldRef)]) = .ok (asciiBytes heldText) := by
  unfold documentRuntime
  dsimp only
  rw [if_pos rfl]
  rfl

theorem fromJson_documentRuntime : documentRuntime.fromJson (asciiBytes heldText) =
    .ok (.dict [("x", blobManifest heldRef)]) := Runtime.fromJson_ofDocument _ heldText 4096

theorem documentRuntime_readsBack : documentRuntime.ReadsBack .same := by
  refine ⟨fun _ => trivial, ?_⟩
  intro manifest metadataJson j _ hto hfrom
  unfold documentRuntime at hto
  dsimp only at hto
  split at hto
  · next hmanifest =>
    cases hto
    rw [normal_same, hmanifest]
    have hread : heldRuntime.fromJson (asciiBytes heldText) = .ok j := hfrom
    exact Runtime.ofDocument_fromJson.1 j hread
  · cases hto

theorem ofDocument_plainBlocks (document : Json) (text : String) (free : ℤ) :
    (Runtime.ofDocument document text free).PlainBlocks := by
  intro str base shape h
  unfold Runtime.ofDocument at h
  dsimp only at h
  split at h <;> cases h

def heldAnalysis : Analysis where
  schemaId := ⟨Vector.replicate 16 7⟩
  schemaVersion := 1
  dataBytes := 0
  dataStart := alignUp (headerSize + (asciiBytes heldText).length) frameSize
  arrays := []
  metadataJson := asciiBytes heldText

theorem totalSize_heldAnalysis : heldAnalysis.totalSize = 65536 := by decide +kernel

theorem headerFits_heldAnalysis : heldAnalysis.HeaderFits := by
  refine ⟨by decide, by decide +kernel, ?_⟩
  rw [totalSize_heldAnalysis]
  decide

theorem encode_hopBuffer {R : Runtime} {model : Model} {σ : Type} {a : Analysis}
    {blobStore : Option (BlobStore σ)} {externalizeMinBytes : Option ℤ} {w w₁ : World σ}
    (hsize : a.totalSize = 65536) (hfits : a.HeaderFits)
    (ha : analyzeModel R model blobStore externalizeMinBytes w = .ok a w₁) :
    ∃ w', encode R model (some (.array hopBuffer.toArray true)) blobStore externalizeMinBytes w =
      .ok hopBuffer w' ∧ Framed w'.mem hopBuffer a ∧ w'.store = w₁.store := by
  have hacquire : acquireOutput R a.totalSize (some (.array hopBuffer.toArray true)) w₁ =
      .ok hopBuffer w₁ := by
    rw [hsize]
    rfl
  obtain ⟨header, hhead⟩ := (packHeader_isOk_iff _).mpr hfits
  obtain ⟨rest, -, hrun⟩ := encode_written ha hhead hacquire
  refine ⟨_, hrun, ?_, rfl⟩
  obtain ⟨a', w₂, w₃, ha', -, hframed, -⟩ := encode_framed hrun
  cases ha.symm.trans ha'
  exact hframed

/-- The object of the first put. -/
def heldArray : NdArray := { oneElement with data := 2 ^ 20 }

def heldStage : Stage ℕ (List (Option NdArray)) where
  store := fakeStore
  cls := oneArray.cls
  modelValidate := plainValidate oneArray.cls
  out := some (.array hopBuffer.toArray true)

theorem heldStage_passes : heldStage.Passes := by
  refine ⟨fun _ _ => rfl, ?_, ?_⟩
  · intro kvs v model v' h a ha
    cases h
    rwa [tree_plainValidate] at ha
  · intro kvs v model v' h hkeys
    cases h
    rwa [tree_plainValidate]

theorem encode_held : ∃ w', encode documentRuntime oneArray (some (.array hopBuffer.toArray true))
      (some (blobStore fakeStore documentRuntime)) (some 0) newWorld = .ok hopBuffer w' ∧
    Framed w'.mem hopBuffer heldAnalysis ∧ w'.store.client = [some heldArray] := by
  obtain ⟨pt, s, hplace, hrender, harrays, hcursor, hstored⟩ : ∃ pt s,
      placeTree (some (blobStore fakeStore documentRuntime)) (some 0) oneArray.tree
        ⟨newWorld, [], 0⟩ = .ok pt s ∧
      pt.subst Placed.render = .dict [("x", blobManifest heldRef)] ∧ s.arrays = [] ∧
      s.cursor = 0 ∧ s.world.store.client = [some heldArray] :=
    ⟨_, _, rfl, rfl, rfl, rfl, rfl⟩
  have ha : analyzeModel documentRuntime oneArray (some (blobStore fakeStore documentRuntime))
      (some 0) newWorld = .ok heldAnalysis s.world := by
    refine analyzeModel_ok.mpr ⟨_, _, pt, s, asciiBytes heldText, rfl, rfl, hplace, ?_, ?_, rfl⟩
    · rw [hrender]
      exact toJson_documentRuntime
    · rw [harrays, hcursor]
      rfl
  obtain ⟨w', hrun, hframed, hstore⟩ :=
    encode_hopBuffer totalSize_heldAnalysis headerFits_heldAnalysis ha
  exact ⟨w', hrun, hframed, by rw [hstore, hstored]⟩

theorem hop_held {w : World (State (List (Option NdArray)))}
    (hframed : Framed w.mem hopBuffer heldAnalysis)
    (hclient : w.store.client = [some heldArray]) :
    ∃ w', heldStage.hop documentRuntime 0 hopBuffer w = .ok hopBuffer w' ∧
      Framed w'.mem hopBuffer heldAnalysis ∧ w'.store.client = [some heldArray] := by
  obtain ⟨mem, live, client, resolvedRefs⟩ := w
  obtain rfl : client = [some heldArray] := hclient
  have hrenewed : Framed (World.mem ⟨mem, live, State.new [some heldArray]⟩) hopBuffer
      heldAnalysis := hframed
  -- the world once the reference has been resolved
  obtain ⟨v, hv⟩ : ∃ v : World (State (List (Option NdArray))), v = ⟨mem, live,
      ⟨[some heldArray], Function.update (fun _ => none) (key heldArray) (some heldRef)⟩⟩ :=
    ⟨_, rfl⟩
  have hauto : decodeAuto documentRuntime (.array hopBuffer.toArray true)
      (some (blobStore fakeStore documentRuntime)) ⟨mem, live, State.new [some heldArray]⟩ =
        .ok [("x", .leaf (.ndarray heldArray))] v := by
    refine (decodeAuto_container hrenewed fromJson_documentRuntime true).trans ?_
    rw [hv]
    rfl
  have hdecode : decode documentRuntime heldStage.cls heldStage.modelValidate
      (.array hopBuffer.toArray true) (some (blobStore fakeStore documentRuntime))
      ⟨mem, live, State.new [some heldArray]⟩ =
        .ok ⟨oneArray.cls, [("x", .leaf (.ndarray heldArray))]⟩ v :=
    decode_container hrenewed rfl hauto rfl
  have hplace : placeTree (some (blobStore fakeStore documentRuntime)) (some 0)
      (.dict [("x", .leaf (.ndarray heldArray))]) ⟨v, [], 0⟩ =
        .ok (.dict [("x", .leaf (.external heldRef))]) ⟨v, [], 0⟩ := by
    rw [hv]
    rfl
  have ha : analyzeModel documentRuntime ⟨oneArray.cls, [("x", .leaf (.ndarray heldArray))]⟩
      (some (blobStore fakeStore documentRuntime)) (some 0) v = .ok heldAnalysis v :=
    analyzeModel_ok.mpr ⟨_, _, _, _, asciiBytes heldText, rfl, rfl, hplace,
      toJson_documentRuntime, rfl, rfl⟩
  obtain ⟨w', hrun, hframed', hstore⟩ :=
    encode_hopBuffer totalSize_heldAnalysis headerFits_heldAnalysis ha
  refine ⟨w', (bind_ok hdecode _).trans hrun, hframed', ?_⟩
  rw [hstore, hv]

def heldWorld : World (State (List (Option NdArray))) := fakeWorld (fun _ => 0) heldArray

/-- The world after the reference has been resolved. -/
def heldResolved : World (State (List (Option NdArray))) :=
  perform fakeStore documentRuntime (.get heldRef) heldWorld

theorem fakeObjects_apart (value : NdArray) : Apart fakeObjects [some value] := by
  intro o o' v writeable v' writeable' hne ho ho'
  cases o with
  | succ o => cases ho
  | zero =>
    cases o' with
    | zero => exact absurd rfl hne
    | succ o' => cases ho'

theorem republish_never_copies_held :
    (∃ ref', Event.get ref' ∈ [] ++ .get heldRef :: [.put heldArray] ∧
      (∀ K : Client ℕ (List (Option NdArray)),
        putArray ⟨K, false⟩ heldArray heldResolved = .ok ref' heldResolved) ∧
      fakeClient.objectID ref'.objectId = fakeClient.objectID heldRef.objectId ∧
      ref'.offset = heldRef.offset ∧ ref'.nbytes = heldRef.nbytes ∧
      ref'.shape = heldRef.shape) ∧
    ∃ w' w'', encode documentRuntime oneArray (some (.array hopBuffer.toArray true))
        (some (blobStore fakeStore documentRuntime)) (some 0) newWorld = .ok hopBuffer w' ∧
      chain documentRuntime 0 [heldStage, heldStage] hopBuffer w' = .ok hopBuffer w'' ∧
      fakeObjects w''.store.client = fakeObjects w'.store.client := by
  have hblocks : documentRuntime.PlainBlocks :=
    ofDocument_plainBlocks (.dict [("x", blobManifest heldRef)]) heldText 4096
  obtain ⟨hput, hchain⟩ := @republish_never_copies ℕ (List (Option NdArray)) documentRuntime .same
    fakeObjects fakeUsed _ hblocks documentRuntime_readsBack
  constructor
  · refine hput fakeStore heldWorld heldWorld heldResolved heldResolved [] [.put heldArray]
      heldRef heldArray fakeClient_lawful (fun _ => rfl) (by simp) ?_ .nil rfl (.single rfl)
      (fakeObjects_apart heldArray) (by decide)
    intro ref' href
    obtain rfl : ref' = heldRef := by simpa using href
    rfl
  · obtain ⟨w₁, hencode, hframed₁, hclient₁⟩ := encode_held
    obtain ⟨w₂, hrun₂, hframed₂, hclient₂⟩ := hop_held hframed₁ hclient₁
    obtain ⟨w₃, hrun₃, -⟩ := hop_held hframed₂ hclient₂
    have hrun : chain documentRuntime 0 [heldStage, heldStage] hopBuffer w₁ =
        .ok hopBuffer w₃ := by
      rw [chain, bind_ok hrun₂, chain, bind_ok hrun₃]
      rfl
    have hsame := hchain fakeStore oneArray 0 _ newWorld w₁ hopBuffer [heldStage, heldStage]
      ⟨⟨by decide, by decide⟩, trivial, trivial⟩ hencode (by
        intro g hg
        obtain rfl : g = heldStage := by simpa using hg
        exact ⟨fakeClient_lawful, heldStage_passes⟩)
    rw [hrun, finalState_ok] at hsame
    exact ⟨w₁, w₃, hencode, hrun, hsame⟩

end Held

/-! ## References and models that are not well formed -/

section Malformed

/-- An object of two elements, and its first element. -/
def pair : NdArray := { twoElements with data := 4096 }

def pairHead : NdArray := { oneElement with data := 4096 }

/-- A reference with a byte too many. -/
def longRef : BlobRef := { heldRef with nbytes := 9 }

/-- Another spelling of the same object ID. -/
def aliasRef : BlobRef := { heldRef with objectId := "x" }

def pairWorld : World (State (List (Option NdArray))) := fakeWorld (fun _ => 0) pair

/-- A mapping that reads as an inline reference to an empty array. -/
def emptyBin : Json := .dict [("$bin", .dict [
  ("kind", .leaf (.str "ndarray")), ("offset", .leaf (.int 0)), ("nbytes", .leaf (.int 0)),
  ("dtype", .leaf (.str "|u1")), ("shape", .list [.leaf (.int 0)])])]

def emptyText : String :=
  "\x7b\"m\":\x7b\"$bin\":\x7b\"kind\":\"ndarray\",\"offset\":0,\"nbytes\":0," ++
    "\"dtype\":\"|u1\",\"shape\":[0]\x7d\x7d\x7d"

def emptyRuntime : Runtime := .ofDocument (.dict [("m", emptyBin)]) emptyText 4096

def emptyModel : Model := ⟨oneArray.cls, Value.ofItems [("m", emptyBin.map Leaf.scalar)]⟩

def emptyAnalysis : Analysis := plainAnalysis ⟨Vector.replicate 16 7⟩ 1 (asciiBytes emptyText)

theorem dataStart_emptyAnalysis : emptyAnalysis.dataStart = 65536 := by decide +kernel

theorem totalSize_emptyAnalysis : emptyAnalysis.totalSize = 65536 := by decide +kernel

theorem headerFits_emptyAnalysis : emptyAnalysis.HeaderFits := by
  refine ⟨by decide, by decide +kernel, ?_⟩
  rw [totalSize_emptyAnalysis]
  decide

/-- The array that the mapping is decoded to. -/
def emptyView : NdArray := .cArray (2 ^ 32 + 65536) uint8 [0] (by decide)

theorem encode_empty : ∃ w', encode emptyRuntime emptyModel
      (some (.array hopBuffer.toArray true)) (some (blobStore fakeStore emptyRuntime)) (some 0)
      newWorld = .ok hopBuffer w' ∧
    Framed w'.mem hopBuffer emptyAnalysis ∧ w'.store = newWorld.store :=
  encode_hopBuffer totalSize_emptyAnalysis headerFits_emptyAnalysis
    (analyzeModel_plain (j := .dict [("m", emptyBin)]) rfl rfl
      (tree_plainValidate _ _) rfl newWorld)

theorem hop_empty {w : World (State (List (Option NdArray)))}
    (hframed : Framed w.mem hopBuffer emptyAnalysis) (hstore : w.store = newWorld.store) :
    ∃ stored, (finalState (heldStage.hop emptyRuntime 0 hopBuffer w)).store.client =
      [some stored] := by
  have hrenewed : Framed (renew w).mem hopBuffer emptyAnalysis := hframed
  have hauto : decodeAuto emptyRuntime (.array hopBuffer.toArray true)
      (some (blobStore fakeStore emptyRuntime)) (renew w) =
        .ok [("m", .leaf (.ndarray emptyView))] (renew w) := by
    refine (decodeAuto_container hrenewed (Runtime.fromJson_ofDocument _ emptyText 4096) true).trans
      ?_
    rw [dataStart_emptyAnalysis]
    rfl
  have hdecode : decode emptyRuntime heldStage.cls heldStage.modelValidate
      (.array hopBuffer.toArray true) (some (blobStore fakeStore emptyRuntime)) (renew w) =
        .ok ⟨oneArray.cls, [("m", .leaf (.ndarray emptyView))]⟩ (renew w) :=
    decode_container hrenewed rfl hauto rfl
  have hrun : heldStage.hop emptyRuntime 0 hopBuffer w =
      encode emptyRuntime ⟨oneArray.cls, [("m", .leaf (.ndarray emptyView))]⟩
        (some (.array hopBuffer.toArray true)) (some (blobStore fakeStore emptyRuntime)) (some 0)
        (renew w) := bind_ok hdecode _
  obtain ⟨mem, live, client, resolvedRefs⟩ := w
  cases hstore
  obtain ⟨pt, s, stored, hplace, hclient⟩ : ∃ pt s stored,
      placeTree (some (blobStore fakeStore emptyRuntime)) (some 0)
        (.dict [("m", .leaf (.ndarray emptyView))])
        ⟨renew ⟨mem, live, ⟨[], fun _ => none⟩⟩, [], 0⟩ = .ok pt s ∧
      s.world.store.client = [some stored] := ⟨_, _, _, rfl, rfl⟩
  obtain ⟨a, ha⟩ : ∃ a, analyzeModel emptyRuntime
      ⟨oneArray.cls, [("m", .leaf (.ndarray emptyView))]⟩ (some (blobStore fakeStore emptyRuntime))
      (some 0) (renew ⟨mem, live, ⟨[], fun _ => none⟩⟩) = .ok a s.world :=
    ⟨_, analyzeModel_ok.mpr ⟨_, _, pt, s, asciiBytes emptyText, rfl, rfl, hplace, rfl, rfl, rfl⟩⟩
  refine ⟨stored, ?_⟩
  rw [hrun, encode_store, ha]
  exact hclient

/-- A reference that is not well formed is put back as another one, so is one whose object ID has
another spelling, and a mapping that reads as an inline reference becomes an array that a later
stage stores. -/
theorem republish_not_always :
    (∃ w₁ w₂, getArray fakeStore heldRuntime longRef pairWorld = .ok pairHead w₁ ∧
      Run (Step fakeStore heldRuntime) pairWorld [.get longRef, .get heldRef] w₂ ∧
      Apart fakeObjects w₂.store.client ∧ 0 < longRef.nbytes ∧
      putArray fakeStore pairHead w₂ = .ok heldRef w₂ ∧ heldRef.nbytes ≠ longRef.nbytes) ∧
    (∃ w₁ w₂, getArray fakeStore heldRuntime heldRef pairWorld = .ok pairHead w₁ ∧
      Run (Step fakeStore heldRuntime) pairWorld [.get heldRef, .get aliasRef] w₂ ∧
      Apart fakeObjects w₂.store.client ∧
      putArray fakeStore pairHead w₂ = .ok aliasRef w₂ ∧ aliasRef.objectId ≠ heldRef.objectId) ∧
    ∃ w', encode emptyRuntime emptyModel (some (.array hopBuffer.toArray true))
        (some (blobStore fakeStore emptyRuntime)) (some 0) newWorld = .ok hopBuffer w' ∧
      fakeObjects w'.store.client 0 = none ∧
      fakeObjects (finalState (chain emptyRuntime 0 [heldStage] hopBuffer w')).store.client 0 ≠
        none := by
  refine ⟨?_, ?_, ?_⟩
  · refine ⟨perform fakeStore heldRuntime (.get longRef) pairWorld,
      perform fakeStore heldRuntime (.get heldRef)
        (perform fakeStore heldRuntime (.get longRef) pairWorld), rfl,
      (Run.single rfl).snoc rfl, fakeObjects_apart pair, by decide, rfl, by decide⟩
  · refine ⟨perform fakeStore heldRuntime (.get heldRef) pairWorld,
      perform fakeStore heldRuntime (.get aliasRef)
        (perform fakeStore heldRuntime (.get heldRef) pairWorld), rfl,
      (Run.single rfl).snoc rfl, fakeObjects_apart pair, rfl, by decide⟩
  · obtain ⟨w', hencode, hframed, hstore⟩ := encode_empty
    obtain ⟨stored, hclient⟩ := hop_empty hframed hstore
    refine ⟨w', hencode, by rw [hstore]; rfl, ?_⟩
    have hchain : (finalState (chain emptyRuntime 0 [heldStage] hopBuffer w')).store.client =
        [some stored] := by
      rw [chain, bind_run]
      cases hrun : heldStage.hop emptyRuntime 0 hopBuffer w' <;> rw [hrun] at hclient <;>
        exact hclient
    rw [hchain]
    exact nofun

end Malformed
end Npb.Vineyard
