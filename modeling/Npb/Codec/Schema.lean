import Npb.Codec.FailedEncode

/-! # Declared schema identities on the wire

`binary_schema` gives a class the UUID of its name and its version, `encode` packs them into the
header, and `decode` compares them with those of its class. The header has 32 bits for the version;
`binary_schema` asks only that it is not negative (`identity_onWire_iff`). -/

namespace Npb
set_option autoImplicit false
open Effects Numpy

variable {σ : Type}

/-! ## Declaring a schema -/

/-- `str.isspace` of one character. -/
def isSpace (c : Char) : Bool :=
  (9 ≤ c.toNat && c.toNat ≤ 13) || (28 ≤ c.toNat && c.toNat ≤ 32) ||
    (8192 ≤ c.toNat && c.toNat ≤ 8202) ||
    [133, 160, 5760, 8232, 8233, 8239, 8287, 12288].contains c.toNat

/-- `name.strip()`. -/
def strip (name : String) : String :=
  String.ofList ((name.toList.dropWhile isSpace).reverse.dropWhile isSpace).reverse

/-- `binary_schema(name, version=version)`; `uuid5` is the UUID of a name in the namespace of
npb. -/
def binarySchema (uuid5 : String → UUID) (name version : Scalar) :
    Except PyError (ModelClass → ModelClass) :=
  match name with
  | .str name =>
    if strip name = "" then .error (.valueError "schema name must be a non-empty string")
    else
      match version with
      | .int version =>
        if version < 0 then .error (.valueError "schema version must be a non-negative integer")
        else .ok fun modelType =>
          { modelType with schemaId := some (uuid5 (strip name)), schemaVersion := some version }
      | _ => .error (.valueError "schema version must be a non-negative integer")
  | _ => .error (.valueError "schema name must be a non-empty string")

/-- The class carries the identity that `binary_schema` gives it for a name, stripped, and a
version. -/
structure ModelClass.Declares (uuid5 : String → UUID) (cls : ModelClass) (name : String)
    (version : ℕ) : Prop where
  schemaId : cls.schemaId = some (uuid5 name)
  schemaVersion : cls.schemaVersion = some version

theorem binarySchema_declares {uuid5 : String → UUID} {name version : Scalar}
    {decorate : ModelClass → ModelClass} (h : binarySchema uuid5 name version = .ok decorate) :
    ∃ (n : String) (v : ℕ), name = .str n ∧ version = .int v ∧
      ∀ cls, (decorate cls).Declares uuid5 (strip n) v := by
  unfold binarySchema at h
  split at h
  · next n =>
    split at h
    · cases h
    · split at h
      · next v =>
        split at h
        · cases h
        · cases h
          obtain ⟨k, rfl⟩ := Int.eq_ofNat_of_zero_le (show 0 ≤ v by omega)
          exact ⟨n, k, rfl, rfl, fun cls => ⟨rfl, rfl⟩⟩
      · cases h
  · cases h

theorem ModelClass.Declares.identity {uuid5 : String → UUID} {cls : ModelClass} {name : String}
    {version : ℕ} (h : cls.Declares uuid5 name version) :
    schemaIdentity cls = .ok (uuid5 name, version) := by
  rw [schemaIdentity, h.schemaId, h.schemaVersion]
  simp

/-! ## The schema checks of `decode` -/

def peek (binary : Argument) : Py σ BinaryInfo := do
  let (_, info) ← parseHeader binary
  return info

section Checks
variable {R : Runtime} {cls : ModelClass} {arg : Argument} {decodeStore : Option (BlobStore σ)}
  {w : World σ} {binary : Buffer} {info : BinaryInfo} {id : UUID} {version : ℕ}

theorem peek_of_parseHeader (h : parseHeader arg w = .ok (binary, info) w) :
    peek arg w = .ok info w := by
  exact (bind_ok h _).trans rfl

/-- Once the schema checks have passed, `decode` goes on like `decode_auto`. -/
theorem decodeChecked_matching (hid : schemaIdentity cls = .ok (info.schemaId, info.schemaVersion))
    (hheader : parseHeader arg w = .ok (binary, info) w) :
    decodeChecked R cls arg decodeStore w = (do
      let tree ← decodeAuto R arg decodeStore
      fromExcept (raiseIf (containsUnresolvedBlobRef (.dict tree)) blobStoreRequired)
      return tree) w := by
  have hauto : decodeAuto R arg decodeStore w = decodeTree R binary info decodeStore w := by
    rw [decodeAuto, bind_ok hheader]
  unfold decodeChecked
  refine (bind_ok (fromExcept_eq_ok.mpr ⟨hid, rfl⟩) _).trans ?_
  refine (bind_ok hheader _).trans ?_
  refine (bind_ok (fromExcept_eq_ok.mpr ⟨raiseIf_eq_ok.mpr (by simp), rfl⟩) _).trans ?_
  refine (bind_ok (fromExcept_eq_ok.mpr ⟨raiseIf_eq_ok.mpr (by simp), rfl⟩) _).trans ?_
  rw [bind_run, bind_run, hauto]
  rfl

theorem decodeChecked_mismatch (hid : schemaIdentity cls = .ok (id, version))
    (hheader : parseHeader arg w = .ok (binary, info) w)
    (hne : (info.schemaId, info.schemaVersion) ≠ (id, version)) :
    ∃ message, decodeChecked R cls arg decodeStore w = .error (.schemaMismatchError message) w := by
  unfold decodeChecked
  rw [bind_ok (fromExcept_eq_ok.mpr ⟨hid, rfl⟩)]
  by_cases hsame : info.schemaId = id
  · have hversion : info.schemaVersion ≠ version := by
      intro h
      rw [hsame, h] at hne
      exact hne rfl
    refine ⟨s!"schema version mismatch: " ++ s!"binary={info.schemaVersion}, class={version}", ?_⟩
    refine (bind_ok hheader _).trans ?_
    refine (bind_ok (fromExcept_eq_ok.mpr ⟨raiseIf_eq_ok.mpr (not_not.mpr hsame), rfl⟩) _).trans ?_
    exact bind_error (fromExcept_eq_error.mpr ⟨raiseIf_eq_error.mpr ⟨hversion, rfl⟩, rfl⟩) _
  · refine ⟨s!"schema UUID mismatch: binary={info.schemaId.str}, class={id.str}", ?_⟩
    refine (bind_ok hheader _).trans ?_
    exact bind_error (fromExcept_eq_error.mpr ⟨raiseIf_eq_error.mpr ⟨hsame, rfl⟩, rfl⟩) _

end Checks

/-! ## What the wire carries -/

/-- The container in `binary` carries the identity `(name, version)` of its class: `peek` reports it,
`decode` passes its schema checks with the class, and rejects every class that declares another
one, provided `uuid5` tells the two names apart. -/
structure CarriesIdentity (uuid5 : String → UUID) (R : Runtime) (cls : ModelClass) (name : String)
    (version : ℕ) (binary : Argument) (w : World σ) : Prop where
  peeked : ∃ info, peek binary w = .ok info w ∧
    schemaIdentity cls = .ok (info.schemaId, info.schemaVersion)
  accepted : ∀ decodeStore : Option (BlobStore σ), decodeChecked R cls binary decodeStore w = (do
    let tree ← decodeAuto R binary decodeStore
    fromExcept (raiseIf (containsUnresolvedBlobRef (.dict tree)) blobStoreRequired)
    return tree) w
  rejected : ∀ (cls' : ModelClass) (name' : String) (version' : ℕ),
    cls'.Declares uuid5 name' version' → (name', version') ≠ (name, version) →
    (uuid5 name' = uuid5 name → name' = name) → ∀ decodeStore : Option (BlobStore σ), ∃ message,
      decodeChecked R cls' binary decodeStore w = .error (.schemaMismatchError message) w

section Wire
variable {uuid5 : String → UUID} {R : Runtime} {model : Model} {out : Option Argument}
  {blobStore : Option (BlobStore σ)} {externalizeMinBytes : Option ℤ} {w w₁ w₂ : World σ}
  {a : Analysis} {binary : Buffer} {n : String} {v : ℕ}

theorem carriesIdentity_of_framed (hdeclares : model.cls.Declares uuid5 n v)
    (hid : a.schemaId = uuid5 n) (hversion : a.schemaVersion = v) (hframed : Framed w.mem binary a)
    (writeable : Bool) :
    CarriesIdentity uuid5 R model.cls n v (.array binary.toArray writeable) w := by
  have hheader := parseHeader_run (parseHeaderIn_eq_ok.mp (parseHeaderIn_container hframed))
    writeable
  have hsame : schemaIdentity model.cls = .ok (a.info.schemaId, a.info.schemaVersion) := by
    rw [hdeclares.identity, ← hid, ← hversion]
    rfl
  refine ⟨⟨a.info, peek_of_parseHeader hheader, hsame⟩,
    fun _ => decodeChecked_matching hsame hheader, ?_⟩
  intro cls' name' version' hdeclares' hother hcollision decodeStore
  apply decodeChecked_mismatch hdeclares'.identity hheader
  intro h
  have hpair : (uuid5 n, v) = (uuid5 name', version') := by
    rw [← h, ← hid, ← hversion]
    rfl
  obtain ⟨hname, hv⟩ := Prod.mk.inj hpair
  exact hother (Prod.ext (hcollision hname.symm) hv.symm)

/-- An `encode` that reaches `pack_into`, with metadata of less than 2^32 bytes, has numbers for it
that are in range, returns, and leaves a container that carries the declared identity, if and only
if the declared version is below 2^32. -/
theorem identity_onWire_iff {name version : Scalar} {decorate : ModelClass → ModelClass}
    (hdecl : binarySchema uuid5 name version = .ok decorate) {base : ModelClass}
    (hcls : model.cls = decorate base)
    (ha : analyzeModel R model blobStore externalizeMinBytes w = .ok a w₁)
    (hmeta : a.metadataJson.length < 2 ^ 32)
    (hout : acquireOutput R a.totalSize out w₁ = .ok binary w₂) :
    (Struct.Fits headerFormat (headerValues a) ∧
      ∃ w', encode R model out blobStore externalizeMinBytes w = .ok binary w' ∧
        ∃ n v, name = .str n ∧ version = .int (v : ℕ) ∧ ∀ writeable,
          CarriesIdentity uuid5 R model.cls (strip n) v (.array binary.toArray writeable) w') ↔
      ∃ v : ℤ, version = .int v ∧ v < 2 ^ 32 := by
  obtain ⟨n, v, rfl, rfl, hdeclares⟩ := binarySchema_declares hdecl
  have hdeclared : model.cls.Declares uuid5 (strip n) v := by
    rw [hcls]
    exact hdeclares base
  obtain ⟨hid, hversion⟩ : a.schemaId = uuid5 (strip n) ∧ a.schemaVersion = v := by
    obtain ⟨schemaId, schemaVersion, pt, s, metadataJson, hidentity, -, -, -, rfl, -⟩ :=
      analyzeModel_ok.mp ha
    cases hdeclared.identity.symm.trans hidentity
    exact ⟨rfl, rfl⟩
  have hfits_iff : Struct.Fits headerFormat (headerValues a) ↔ a.HeaderFits := by
    rw [← packHeader_isOk_iff, ← Struct.pack_isSome_iff]
    unfold packHeader
    cases Struct.pack headerFormat (headerValues a) <;> simp
  rw [hfits_iff]
  constructor
  · rintro ⟨hfits, -⟩
    exact ⟨v, rfl, by have := hfits.1; omega⟩
  · rintro ⟨v', hv', hlt⟩
    cases hv'
    have hsize := (acquireOutput_ok hout).1
    have hroom := binary.size_lt
    have hfits : a.HeaderFits := ⟨by omega, hmeta, by omega⟩
    obtain ⟨header, hhead⟩ := (packHeader_isOk_iff a).mpr hfits
    obtain ⟨rest, -, hrun⟩ := encode_written ha hhead hout
    obtain ⟨a', w₁', w₂', ha', -, hframed, -⟩ := encode_framed hrun
    cases ha.symm.trans ha'
    exact ⟨hfits, _, hrun, n, v, rfl, rfl,
      carriesIdentity_of_framed hdeclared hid hversion hframed⟩

end Wire

/-! ## A declared class -/

section Capture

def captureName : String := "com.example.capture-bundle"

/-- The UUID of that name in the namespace of npb. -/
def captureId : UUID := ⟨#v[106, 137, 126, 76, 237, 134, 94, 7, 157, 147, 129, 24, 2, 132, 11, 120]⟩

def captureUuid5 (name : String) : UUID :=
  if name = captureName then captureId else ⟨Vector.replicate 16 0⟩

/-- A model without fields of a class declared under that name. -/
def captureModel (version : ℕ) : Model :=
  ⟨⟨"CaptureBundle", some captureId, some version⟩, []⟩

def captureAnalysis (version : ℕ) : Analysis :=
  { wideAnalysis with schemaId := captureId, schemaVersion := version }

theorem binarySchema_capture (version : ℕ) : ∃ decorate,
    binarySchema captureUuid5 (.str captureName) (.int version) = .ok decorate ∧
      (captureModel version).cls = decorate ⟨"CaptureBundle", none, none⟩ := by
  have hstrip : strip captureName = captureName := by decide +kernel
  have hname : captureName ≠ "" := by decide
  have hid : captureUuid5 captureName = captureId := if_pos rfl
  have hdecl : binarySchema captureUuid5 (.str captureName) (.int version) =
      .ok fun modelType =>
        { modelType with schemaId := some captureId, schemaVersion := some (version : ℤ) } := by
    rw [binarySchema, hstrip, if_neg hname, hid]
    exact if_neg (by omega)
  exact ⟨_, hdecl, rfl⟩

theorem analyzeModel_capture (version : ℕ) (w : World Unit) :
    analyzeModel wideRuntime (captureModel version) none none w =
      .ok (captureAnalysis version) w := by
  have hid : schemaIdentity (captureModel version).cls = .ok (captureId, version) := by
    rw [schemaIdentity, captureModel]
    simp
  exact analyzeModel_ok.mpr ⟨_, _, .dict [], ⟨w, [], 0⟩, _, hid, rfl, rfl, rfl, rfl, rfl⟩

theorem acquireOutput_capture (version : ℕ) : ∃ binary w₂,
    acquireOutput wideRuntime (captureAnalysis version).totalSize none oneArrayWorld =
      .ok binary w₂ := by
  have hsize : (captureAnalysis version).totalSize = 65536 := by
    show wideAnalysis.totalSize = 65536
    decide +kernel
  rw [hsize]
  exact ⟨_, _, rfl⟩

theorem identity_onWire_capture : ∃ binary,
    (Struct.Fits headerFormat (headerValues (captureAnalysis 3)) ∧
      ∃ w', encode wideRuntime (captureModel 3) none none none oneArrayWorld = .ok binary w' ∧
        ∃ n v, Scalar.str captureName = .str n ∧ Scalar.int (3 : ℕ) = .int (v : ℕ) ∧ ∀ writeable,
          CarriesIdentity captureUuid5 wideRuntime (captureModel 3).cls (strip n) v
            (.array binary.toArray writeable) w') ↔
      ∃ v : ℤ, Scalar.int (3 : ℕ) = .int v ∧ v < 2 ^ 32 := by
  obtain ⟨decorate, hdecl, hcls⟩ := binarySchema_capture 3
  obtain ⟨binary, w₂, hout⟩ := acquireOutput_capture 3
  exact ⟨binary, identity_onWire_iff hdecl hcls (analyzeModel_capture 3 oneArrayWorld)
    (by decide +kernel) hout⟩

/-- `binary_schema` accepts the version 2^32, and `encode` cannot pack it. -/
theorem declared_version_unpackable : ∃ decorate,
    binarySchema captureUuid5 (.str captureName) (.int (2 ^ 32 : ℕ)) = .ok decorate ∧
      (captureModel (2 ^ 32)).cls = decorate ⟨"CaptureBundle", none, none⟩ ∧
      analyzeModel wideRuntime (captureModel (2 ^ 32)) none none oneArrayWorld =
        .ok (captureAnalysis (2 ^ 32)) oneArrayWorld ∧
      (captureAnalysis (2 ^ 32)).metadataJson.length = 2 ∧
      ∃ w', encode wideRuntime (captureModel (2 ^ 32)) none none none oneArrayWorld =
        .error (.structError "argument out of range") w' := by
  obtain ⟨decorate, hdecl, hcls⟩ := binarySchema_capture (2 ^ 32)
  obtain ⟨binary, w₂, hout⟩ := acquireOutput_capture (2 ^ 32)
  have ha := analyzeModel_capture (2 ^ 32) oneArrayWorld
  exact ⟨decorate, hdecl, hcls, ha, by decide +kernel, _, encode_torn ha hout rfl⟩

end Capture
end Npb
