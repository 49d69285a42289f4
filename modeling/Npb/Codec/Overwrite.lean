import Npb.Codec.RoundTrip

/-! # What `encode` writes

The bytes `encode` returns are a function of the analysis and of the bytes of the arrays: nothing
of them is left over from the memory they were written to, and nothing is written beyond them. -/

namespace Npb
set_option autoImplicit false
open Effects Numpy

variable {σ : Type}

theorem body_congr {m m' : Mem} {prev : ℕ} {arrays : List (ℕ × NdArray)}
    (h : ∀ relOffset node, (relOffset, node) ∈ arrays → node.tobytes m' = node.tobytes m) :
    body m' prev arrays = body m prev arrays := by
  induction arrays generalizing prev with
  | nil => rfl
  | cons x arrays ih =>
    obtain ⟨relOffset, node⟩ := x
    rw [body, body, h relOffset node (List.mem_cons_self ..),
      ih fun relOffset' node' h' => h relOffset' node' (List.mem_cons_of_mem _ h')]

/-- The part of a caller's output beyond the first `n` bytes. -/
def BeyondOutput (out : Option Argument) (n : ℕ) (x : ℤ) : Prop :=
  ∃ o writeable, out = some (.array o writeable) ∧ o.data + n ≤ x ∧ x < o.data + o.nbytes

theorem not_contains_of_beyond {R : Runtime} {out : Option Argument} {n : ℕ} {binary : Buffer}
    {w w' : World σ} (h : acquireOutput R n out w = .ok binary w') {x : ℤ}
    (hx : BeyondOutput out n x) : ¬ binary.Contains x := by
  obtain ⟨o, writeable, rfl, hlo, -⟩ := hx
  obtain ⟨hcheck, -⟩ := fromExcept_eq_ok.mp h
  obtain ⟨hsize, o', ho', -, hbase, -⟩ := checkOutput_eq_ok hcheck
  cases ho'
  unfold Buffer.Contains
  omega

theorem analyzeModel_extends {R : Runtime} {model : Model} {blobStore : Option (BlobStore σ)}
    {externalizeMinBytes : Option ℤ} {w w' : World σ} {a : Analysis}
    (hputs : ∀ store, blobStore = some store → store.PutsExtend)
    (h : analyzeModel R model blobStore externalizeMinBytes w = .ok a w') : w.Extends w' := by
  obtain ⟨schemaId, schemaVersion, pt, s, metadataJson, -, -, hplace, -, -, rfl⟩ :=
    analyzeModel_ok.mp h
  have hext : w.Extends (finalState (placeTree blobStore externalizeMinBytes model.tree
      ⟨w, [], 0⟩)).world := placeTree_extends hputs model.tree ⟨w, [], 0⟩
  rwa [hplace] at hext

theorem analyzeModel_sources {R : Runtime} {model : Model} {blobStore : Option (BlobStore σ)}
    {externalizeMinBytes : Option ℤ} {w w' : World σ} {a : Analysis}
    (h : analyzeModel R model blobStore externalizeMinBytes w = .ok a w')
    {relOffset : ℕ} {node : NdArray} (hmem : (relOffset, node) ∈ a.arrays) :
    node ∈ arraysOf model.tree := by
  obtain ⟨schemaId, schemaVersion, pt, s, metadataJson, -, -, hplace, -, rfl, -⟩ :=
    analyzeModel_ok.mp h
  exact ((placeTree_laidOut hplace).1.source relOffset node hmem).1

/-- One run of the encoder: the container's bytes at the start of the output, and the rest of the
caller's array as it was. -/
theorem encode_overwrites {R : Runtime} {model : Model} {blobStore : Option (BlobStore σ)}
    {externalizeMinBytes : Option ℤ} {out : Option Argument} {w w₁ : World σ} {a : Analysis}
    {header : List UInt8} (hputs : ∀ store, blobStore = some store → store.PutsExtend)
    (ha : analyzeModel R model blobStore externalizeMinBytes w = .ok a w₁)
    (hhead : packHeader a = .ok header)
    (hout : ProvidesOutput R out a.totalSize (arraysOf model.tree) w₁) :
    ∃ binary w', encode R model out blobStore externalizeMinBytes w = .ok binary w' ∧
      binary.bytes w'.mem = containerBytes a header w₁.mem ∧
      ∀ x, w.live x = true → BeyondOutput out a.totalSize x → w'.mem x = w.mem x := by
  obtain ⟨binary, w₂, hacquire, hdisjoint⟩ := hout
  obtain ⟨hsize, hmem, -, -⟩ := acquireOutput_ok hacquire
  obtain ⟨hl, hstart⟩ := analyzeModel_laid ha
  have hlen := containerBytes_length (m := w₂.mem) (packHeader_length hhead)
    (Analysis.frame_le hstart) hl
  have hrun := encode_run ha hhead hacquire (sourcesSurvive_of_output hhead hl hstart hsize
    fun relOffset node h => hdisjoint node (analyzeModel_sources ha h))
  refine ⟨binary, _, hrun, ?_, ?_⟩
  · rw [← hmem]
    exact Buffer.bytes_write _ _ _ (hlen.trans hsize.symm)
  · intro x hlive hx
    have hnot := not_contains_of_beyond hacquire hx
    obtain ⟨-, hkept⟩ := analyzeModel_extends hputs ha x hlive
    dsimp only
    rw [Mem.write_of_not_mem _ _ _ (by rw [hlen]; unfold Buffer.Contains at hnot; omega), hmem,
      hkept]

/-- Two runs of the encoder on the same analysis, whose arrays hold the same bytes, return the same
bytes, whatever the two memories hold besides. -/
theorem encode_deterministic {R : Runtime} {model : Model} {blobStore : Option (BlobStore σ)}
    {externalizeMinBytes : Option ℤ} {out₁ out₂ : Option Argument} {w v w₁ v₁ : World σ}
    {a : Analysis} (hputs : ∀ store, blobStore = some store → store.PutsExtend)
    (hw : analyzeModel R model blobStore externalizeMinBytes w = .ok a w₁)
    (hv : analyzeModel R model blobStore externalizeMinBytes v = .ok a v₁)
    (hfits : a.HeaderFits)
    (hsame : ∀ node ∈ arraysOf model.tree, node.tobytes v₁.mem = node.tobytes w₁.mem)
    (hout₁ : ProvidesOutput R out₁ a.totalSize (arraysOf model.tree) w₁)
    (hout₂ : ProvidesOutput R out₂ a.totalSize (arraysOf model.tree) v₁) :
    ∃ b₁ w' b₂ v', encode R model out₁ blobStore externalizeMinBytes w = .ok b₁ w' ∧
      encode R model out₂ blobStore externalizeMinBytes v = .ok b₂ v' ∧
      b₁.bytes w'.mem = b₂.bytes v'.mem ∧ (b₁.bytes w'.mem).length = a.totalSize ∧
      (∀ x, w.live x = true → BeyondOutput out₁ a.totalSize x → w'.mem x = w.mem x) ∧
      ∀ x, v.live x = true → BeyondOutput out₂ a.totalSize x → v'.mem x = v.mem x := by
  obtain ⟨header, hhead⟩ := (packHeader_isOk_iff a).mpr hfits
  obtain ⟨b₁, w', hrun₁, hbytes₁, hrest₁⟩ := encode_overwrites hputs hw hhead hout₁
  obtain ⟨b₂, v', hrun₂, hbytes₂, hrest₂⟩ := encode_overwrites hputs hv hhead hout₂
  obtain ⟨hl, hstart⟩ := analyzeModel_laid hw
  have hbody : body v₁.mem 0 a.arrays = body w₁.mem 0 a.arrays :=
    body_congr fun relOffset node h => hsame node (analyzeModel_sources hw h)
  refine ⟨b₁, w', b₂, v', hrun₁, hrun₂, ?_, ?_, hrest₁, hrest₂⟩
  · rw [hbytes₁, hbytes₂, containerBytes, containerBytes, hbody]
  · rw [hbytes₁, containerBytes_length (packHeader_length hhead) (Analysis.frame_le hstart) hl]

/-- A caller's buffer of 150000 bytes at address 2^20. -/
def spareBuffer : Buffer := ⟨2 ^ 20, 150000, by decide⟩

/-- The same array as in `oneArrayWorld`, other bytes everywhere else, and the spare buffer. -/
def noisyWorld : World Unit where
  mem x := if x < 8 then oneArrayWorld.mem x else 255
  live x := oneArrayWorld.live x || decide (spareBuffer.Contains x)
  store := ()

theorem encode_deterministic_oneArray :
    ∃ b₁ w' b₂ v', encode oneArrayRuntime oneArray none none none oneArrayWorld = .ok b₁ w' ∧
      encode oneArrayRuntime oneArray (some (.array spareBuffer.toArray true)) none none
        noisyWorld = .ok b₂ v' ∧
      b₁.bytes w'.mem = b₂.bytes v'.mem ∧
      (b₁.bytes w'.mem).length = oneArrayAnalysis.totalSize ∧
      (∀ x, oneArrayWorld.live x = true → BeyondOutput none oneArrayAnalysis.totalSize x →
        w'.mem x = oneArrayWorld.mem x) ∧
      ∀ x, noisyWorld.live x = true → BeyondOutput (some (.array spareBuffer.toArray true))
        oneArrayAnalysis.totalSize x → v'.mem x = noisyWorld.mem x := by
  refine encode_deterministic (by simp) (analyzeModel_oneArray _) (analyzeModel_oneArray _) ?_ ?_
    ?_ ?_
  · exact ⟨by decide, by decide +kernel, by rw [totalSize_oneArray]; decide⟩
  · intro node hnode
    rw [mem_arraysOf_oneArray hnode]
    refine NdArray.tobytes_congr _ fun x hx => if_pos (touches_oneElement hx).2
  · rw [totalSize_oneArray]
    exact providesOutput_oneArray
  · rw [totalSize_oneArray]
    refine ⟨spareBuffer.take 131072, noisyWorld, rfl, ?_⟩
    intro node hnode x hx hin
    rw [mem_arraysOf_oneArray hnode] at hx
    have hx' := touches_oneElement hx
    have hlo : (2 : ℤ) ^ 20 ≤ x := hin.1
    omega

end Npb
