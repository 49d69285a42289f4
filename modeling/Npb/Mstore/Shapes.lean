import Npb.Mstore.Creating
import Npb.Mstore.Operations
import Npb.Numpy.Shaped

/-! # Shapes and sizes

`create` asks for as many bytes as `np.prod` says, which is exact if and only if the product of the
dimensions is less than `2 ^ 63`. The server keeps the size with the shape as long as it has the
object (`Kept.serve`), so that the array that `numpy` makes fits every mapping of the object as long
as that is so (`requested_size_iff`). -/

namespace Npb.Mstore
set_option autoImplicit false
open Effects Numpy Operations

/-! ## Arguments of `create` -/

/-- `np.dtype(...)` of what a caller passes, and of a value of the protocol. -/
structure Dtypes (D : Type) where
  dtype : D → Except PyError NpDtype
  ofValue : Json → Except PyError DType

/-- `dt.str`: a block is so many bytes without a type. -/
def dtypeString : NpDtype → String
  | .plain d => d.str
  | .subarray base shape => "|V" ++ toString (NpDtype.subarray base shape).itemsize

/-- The string of the type leads back to a type of its size. -/
def Dtypes.Names {D : Type} (np : Dtypes D) (dt : NpDtype) : Prop :=
  ∃ d, np.ofValue (.leaf (.str (dtypeString dt))) = .ok d ∧ d.itemsize = dt.itemsize

/-- What `create` asks the server for. -/
structure CreateArgs where
  size : ℤ
  shape : Option (List ℤ)
  dtype : Option String
  order : String

section Client
variable {D : Type} (np : Dtypes D)

def computedSize (shape : List ℤ) (dt : NpDtype) : ℤ := (npProd shape).toInt * dt.itemsize

/-- The size of an array, and the string of its type. -/
def arrayArgs (size : Option ℤ) (shape : List ℤ) (dtype : D) : Except PyError (ℤ × String) := do
  raiseIf (shape = [] ∨ ∃ x ∈ shape, x ≤ 0) (.valueError "shape dimensions must be positive")
  let dt ← np.dtype dtype
  raiseIf (∃ x ∈ shape, 2 ^ 64 ≤ x) (.overflowError "Python int too large to convert to C long")
  raiseIf (∃ s ∈ size, s ≠ computedSize shape dt)
    (.valueError "size does not match shape * dtype.itemsize")
  return (computedSize shape dt, dtypeString dt)

def createArgs (size : Option ℤ) (shape : Option (List ℤ)) (dtype : Option D) (order : String) :
    Except PyError CreateArgs := do
  let (size, text) ← match shape, dtype with
    | none, none => pure (size, none)
    | some shape, some dtype => do
      let (size, text) ← arrayArgs np size shape dtype
      pure (some size, some text)
    | _, _ => throw (.valueError "shape and dtype must be provided together")
  match size with
  | none => throw (.valueError "size must be > 0")
  | some size => do
    raiseIf (size ≤ 0) (.valueError "size must be > 0")
    raiseIf (order ≠ "C" ∧ order ≠ "F") (.valueError "order must be 'C' or 'F'")
    return ⟨size, shape, text, order⟩

namespace CreateArgs

def shapeValue (a : CreateArgs) : Json :=
  match a.shape with
  | some shape => .list (shape.map fun d => .leaf (.int d))
  | none => .leaf .none

def dtypeValue (a : CreateArgs) : Json :=
  match a.dtype with
  | some text => .leaf (.str text)
  | none => .leaf .none

/-- The request, with `metadata or {}`. -/
def operation (a : CreateArgs) (metadata : Message) : Operation :=
  .create a.size a.shapeValue a.dtypeValue a.order metadata

end CreateArgs

/-! ## `SharedObject.numpy` -/

/-- A length of a shape. -/
def indexOf : Json → Except PyError ℤ
  | .leaf (.int i) => .ok i
  | _ => .error (.typeError "object cannot be interpreted as an integer")

/-- Whether the order of an array is that of Fortran; `create` knows no other texts. -/
def orderOf (value : Json) : Except PyError Bool :=
  if isText "C" value then .ok false
  else if isText "F" value then .ok true
  else .error (.valueError "order must be one of 'C', 'F', 'A', or 'K'")

/-- `numpy()`, where the buffer is missing if the object is closed. -/
def numpy (info : Message) (buffer : Option Buffer) : Except PyError NdArray :=
  let noMetadata := PyError.typeError "this object has no NumPy shape/dtype metadata"
  match getKey info "shape" with
  | .leaf .none => .error noMetadata
  | value => do
    let shape ← pyIter value
    match getKey info "dtype" with
    | .leaf .none => throw noMetadata
    | value => do
      let dtype ← np.ofValue value
      match buffer with
      | none => throw (.valueError "shared object is closed")
      | some buffer => do
        let lengths ← shape.mapM indexOf
        let fortran ← orderOf (getOr info "order" (.leaf (.str "C")))
        ndarray dtype lengths buffer fortran

end Client

/-! ## What a create asks for -/

section Requests
variable {D : Type} {np : Dtypes D} {size : Option ℤ} {shape : List ℤ} {dtype : D} {dt : NpDtype}
  {order : String} {a : CreateArgs}

/-- What `create` has checked when it makes its request for an array. -/
structure ArrayRequest (shape : List ℤ) (dt : NpDtype) (a : CreateArgs) : Prop where
  nonempty : shape ≠ []
  dims : ∀ d ∈ shape, 0 < d
  positive : 0 < a.size
  size_eq : a.size = computedSize shape dt
  shape_eq : a.shape = some shape
  dtype_eq : a.dtype = some (dtypeString dt)
  known : a.order = "C" ∨ a.order = "F"

theorem createArgs_ok (hdtype : np.dtype dtype = .ok dt)
    (h : createArgs np size (some shape) (some dtype) order = .ok a) : ArrayRequest shape dt a := by
  unfold createArgs at h
  obtain ⟨⟨computed, text⟩, harray, h⟩ := except_bind_eq_ok.mp h
  unfold arrayArgs at harray
  rw [raiseIf_bind_eq_ok, hdtype, except_ok_bind, raiseIf_bind_eq_ok, raiseIf_bind_eq_ok] at harray
  obtain ⟨hdims, -, -, hresult⟩ := harray
  cases hresult
  dsimp only at h
  rw [pure_bind] at h
  dsimp only at h
  rw [raiseIf_bind_eq_ok, raiseIf_bind_eq_ok] at h
  obtain ⟨hsize, horder, h⟩ := h
  cases h
  push Not at hdims horder
  refine ⟨hdims.1, hdims.2, Int.not_le.mp hsize, rfl, rfl, rfl, ?_⟩
  by_cases hc : order = "C"
  · exact .inl hc
  · exact .inr (horder hc)

theorem ArrayRequest.exact_iff (h : ArrayRequest shape dt a) (hitem : 0 < dt.itemsize) :
    a.size = shape.prod * dt.itemsize ↔ shape.prod < 2 ^ 63 := by
  have hne : (dt.itemsize : ℤ) ≠ 0 := by exact_mod_cast hitem.ne'
  rw [h.size_eq, computedSize, mul_left_inj' hne]
  exact npProd_eq_iff h.dims

/-! ## What `numpy` makes of it -/

theorem mapM_indexOf (shape : List ℤ) :
    (shape.map fun d => (.leaf (.int d) : Json)).mapM indexOf = .ok shape := by
  induction shape with
  | nil => rfl
  | cons d shape ih =>
    rw [List.map_cons, List.mapM_cons, ih]
    rfl

theorem ArrayRequest.numpy_eq (h : ArrayRequest shape dt a) {info : Message}
    (hshape : getKey info "shape" = a.shapeValue) (hdtype : getKey info "dtype" = a.dtypeValue)
    (horder : getOr info "order" (.leaf (.str "C")) = .leaf (.str a.order)) {d : DType}
    (hd : np.ofValue (.leaf (.str (dtypeString dt))) = .ok d) (buffer : Buffer) :
    numpy np info (some buffer) = ndarray d shape buffer (a.order = "F") := by
  unfold numpy
  rw [hshape, hdtype, horder]
  unfold CreateArgs.shapeValue CreateArgs.dtypeValue
  rw [h.shape_eq, h.dtype_eq]
  dsimp only
  rw [pyIter_list, except_ok_bind, hd, except_ok_bind, mapM_indexOf, except_ok_bind]
  obtain hc | hf := h.known
  · rw [hc]
    rfl
  · rw [hf]
    rfl

end Requests

/-! ## Objects keep their size -/

def Region.size : Region → ℤ
  | memfd _ size _ => size
  | windowsNamed _ size _ => size

@[simp] theorem Region.size_close (r : Region) : r.close.size = r.size := by
  cases r <;> rfl

theorem size_closeAll (closed : List ℕ) {regions : List Region} {i : ℕ} {region : Region}
    (h : regions[i]? = some region) :
    ∃ region', (closeAll closed regions)[i]? = some region' ∧ region'.size = region.size := by
  induction closed generalizing regions region with
  | nil => exact ⟨region, h, rfl⟩
  | cons j closed ih =>
    have hcons : closeAll (j :: closed) regions =
        closeAll closed (regions.modify j Region.close) := rfl
    rw [hcons]
    by_cases hj : j = i
    · have hclosed : (regions.modify j Region.close)[i]? = some region.close := by
        rw [List.getElem?_modify, h]
        simp [hj]
      obtain ⟨region', hregion', hsize⟩ := ih hclosed
      exact ⟨region', hregion', hsize.trans region.size_close⟩
    · refine ih ?_
      rw [List.getElem?_modify, h]
      simp [hj]

/-- The object that is registered under the id of `obj`, if there still is one, is `obj`, and its
region has its size. -/
structure Kept (env : Environment) (obj : ObjectRecord) (s : State) : Prop where
  record : ∀ obj', s.registry.objects.get? obj.objectId = some obj' → obj' = obj
  region : ∃ region, s.regions[obj.region]? = some region ∧ region.size = obj.size
  drawn : ∃ n < s.ticks, obj.objectId = env.uuid4 n

section Keeping
variable {env : Environment} {endpoint : String} {obj : ObjectRecord} {s s' : State}

theorem Kept.later (h : Kept env obj s)
    (hobjects : ∀ obj', s'.registry.objects.get? obj.objectId = some obj' →
      s.registry.objects.get? obj.objectId = some obj')
    (hregions : s'.regions = s.regions) (hticks : s.ticks ≤ s'.ticks) : Kept env obj s' := by
  obtain ⟨n, hn, hid⟩ := h.drawn
  refine ⟨fun obj' hobj' => h.record obj' (hobjects obj' hobj'), ?_, n, by omega, hid⟩
  rw [hregions]
  exact h.region

theorem Kept.unchanged (h : Kept env obj s) (hsame : Unchanged s s') : Kept env obj s' := by
  refine h.later ?_ hsame.regions hsame.ticks
  rw [hsame.registry]
  exact fun _ h => h

theorem Kept.step (h : Kept env obj s) (hunique : env.Unique) {e : Event}
    (heffect : Effect env s e s') : Kept env obj s' := by
  obtain ⟨k, hk, hid⟩ := h.drawn
  obtain ⟨region, hregion, hsize⟩ := h.region
  cases heffect with
  | failed hsame => exact h.unchanged hsame
  | created n m t obj' region' now hsize' hn hm ht hid' hregion' hopen =>
    refine ⟨?_, ⟨region, ?_, hsize⟩, k, by show k < t; omega, hid⟩
    · intro other hother
      have hne : obj.objectId ≠ obj'.objectId := by
        rw [hid, hid']
        intro heq
        have hkn := hunique.id heq
        omega
      exact h.record other ((Dict.get?_set_of_ne hne).symm.trans hother)
    · have hlt := (List.getElem?_eq_some_iff.mp hregion).1
      show (s.regions ++ [region'])[obj.region]? = some region
      rw [List.getElem?_append_left hlt, hregion]
  | validated => exact h.later (fun _ h => h) rfl (Nat.le_succ _)
  | issued requested obj' issuer expiresAt s₁ hrequested hauthorised hgrant hsubset hexpiry hs₁ =>
    exact h.later (fun _ h => h) rfl (hs₁.ticks.trans (Nat.le_add_right _ _))
  | revoked => exact h.later (fun _ h => h) rfl (Nat.le_succ _)
  | @deleted objectId rawToken obj' token hauthorised hdelete =>
    obtain ⟨closed, hclosed, hsame⟩ := size_closeAll [obj'.region] hregion
    refine ⟨?_, ⟨closed, hclosed, hsame.trans hsize⟩, k, Nat.lt_succ_of_lt hk, hid⟩
    intro other hother
    by_cases heq : obj.objectId = objectId
    · rw [← heq, Dict.get?_pop_self] at hother
      cases hother
    · exact h.record other ((Dict.get?_pop_of_ne heq).symm.trans hother)
  | closed =>
    obtain ⟨closed, hclosed, hsame⟩ :=
      size_closeAll (s.registry.objects.values.map ObjectRecord.region) hregion
    refine ⟨?_, ⟨closed, hclosed, hsame.trans hsize⟩, k, hk, hid⟩
    intro other hother
    cases hother

/-- The server keeps the size with the shape, whatever it is asked for. -/
theorem Kept.serve (h : Kept env obj s) (hunique : env.Unique) {exchanges : List Exchange}
    (hrun : Run (Serve env endpoint) s exchanges s') : Kept env obj s' := by
  refine hrun.invariant (I := Kept env obj) ?_ h
  intro x s₁ s₂ hkept hserve
  obtain ⟨-, hsame⟩ | ⟨e, s₃, -, hstep, hsame⟩ := serve_step hserve
  · exact hkept.unchanged hsame
  · exact (hkept.step hunique (perform_effect hstep)).unchanged hsame

end Keeping

/-! ## Answers -/

/-- A mapping of so many bytes. -/
def Sized (mapping : Json) (size : ℤ) : Prop :=
  ∃ entries, mapping = .dict entries ∧ pyItem entries "size" = .ok (.leaf (.int size))

section Answers
variable {env : Environment} {endpoint : String} {s s' : State} {fd : Option ℕ} {result : Message}

theorem clientMapping_sized {region : Region} {mode : String} {mapped : Json}
    (h : clientMapping env region mode s = .ok (mapped, fd) s') : Sized mapped region.size := by
  unfold clientMapping at h
  cases region with
  | memfd number size name =>
    dsimp only at h
    split_ifs at h
    · obtain ⟨opened, s₁, -, h⟩ := bind_eq_ok.mp h
      obtain ⟨number', s₂, -, h⟩ := bind_eq_ok.mp h
      cases h
      exact ⟨_, rfl, rfl⟩
    · obtain ⟨opened, s₁, -, h⟩ := bind_eq_ok.mp h
      obtain ⟨number', s₂, -, h⟩ := bind_eq_ok.mp h
      cases h
      exact ⟨_, rfl, rfl⟩
    · cases h
  | windowsNamed closed size name =>
    dsimp only at h
    split_ifs at h
    · cases h
    · cases h
      exact ⟨_, rfl, rfl⟩

theorem regionMapping_sized {region : ℕ} {mode : String} {mapped : Json}
    (h : regionMapping env region mode s = .ok (mapped, fd) s') :
    ∃ r, s.regions[region]? = some r ∧ Sized mapped r.size := by
  unfold regionMapping at h
  rw [bind_ok (get_run s)] at h
  cases hregion : s.regions[region]? with
  | none =>
    rw [hregion] at h
    cases h
  | some r =>
    rw [hregion] at h
    exact ⟨r, rfl, clientMapping_sized h⟩

theorem textArg_str {args : Message} {key text : String}
    (h : getKey args key = .leaf (.str text)) : textArg env args key = .ok text := by
  unfold textArg orElse
  rw [h]
  by_cases hempty : text = ""
  · subst hempty
    rfl
  · have htruthy : truthy (.leaf (.str text)) = true := decide_eq_true hempty
    rw [if_pos htruthy]
    rfl

/-- The result of a request to open an object is its record, and a mapping of its region. -/
theorem handle_open {objectId token : String} {access : Access}
    (h : handle env endpoint (Operation.openObject objectId token access).message s =
      .ok (result, fd) s') :
    ∃ obj region mapped, s.registry.objects.get? objectId = some obj ∧
      s.regions[obj.region]? = some region ∧ Sized mapped region.size ∧
      result = [("object", obj.toPublic env), ("mapping", mapped)] := by
  have hargs : requestArgs (Operation.openObject objectId token access).message =
      .ok (Operation.openObject objectId token access).args := rfl
  obtain ⟨required, hmode⟩ : ∃ required,
      openRequired (Operation.openObject objectId token access).args = some required := by
    cases access <;> exact ⟨_, rfl⟩
  unfold handle at h
  rw [hargs, fromExcept_ok_bind] at h
  have hop : getKey (Operation.openObject objectId token access).message "op" =
      .leaf (.str "open") := rfl
  rw [hop, if_neg (by decide), if_neg (by decide), textArg_str rfl, textArg_str rfl,
    fromExcept_ok_bind, fromExcept_ok_bind, raiseIf_run_eq_ok] at h
  have hopen : isText "open" (.leaf (.str "open")) = true := rfl
  obtain ⟨-, h⟩ := h
  rw [if_pos hopen] at h
  unfold handleOpen at h
  rw [hmode] at h
  obtain ⟨⟨obj, record⟩, s₁, hvalidate, h⟩ := bind_eq_ok.mp h
  obtain ⟨names, -, hauthorised, rfl⟩ := validate_ok.mp hvalidate
  obtain ⟨⟨mapped, fd'⟩, s₂, hmapping, h⟩ := bind_eq_ok.mp h
  cases h
  obtain ⟨region, hregion, hsized⟩ := regionMapping_sized hmapping
  exact ⟨obj, region, mapped, hauthorised.registered, hregion, hsized, rfl⟩

theorem newRegion_size {size : ℤ} {objectId : String} {t : ℕ} {region : Region}
    (h : newRegion env size objectId t = .ok region) : region.size = size := by
  unfold newRegion at h
  cases hplatform : env.platform with
  | windows =>
    rw [hplatform] at h
    obtain ⟨u, -, h⟩ := except_bind_eq_ok.mp h
    cases h
    rfl
  | linux =>
    rw [hplatform] at h
    obtain ⟨fd, -, h⟩ := except_bind_eq_ok.mp h
    obtain ⟨u, -, h⟩ := except_bind_eq_ok.mp h
    cases h
    rfl
  | other =>
    rw [hplatform] at h
    cases h

theorem writeMapping_sized {region : Region} {t : ℕ} {mapped : Json}
    (h : writeMapping env t region = .ok (mapped, fd)) : Sized mapped region.size := by
  cases region with
  | memfd number size name =>
    obtain ⟨number', -, h⟩ := except_bind_eq_ok.mp h
    cases h
    exact ⟨_, rfl, rfl⟩
  | windowsNamed closed size name =>
    cases h
    exact ⟨_, rfl, rfl⟩

/-- A create that is answered has registered an object with the values of its request. -/
theorem handle_array {size : ℤ} {shape dtype : Json} {order : String} {metadata : Message}
    (h : handle env endpoint (Operation.create size shape dtype order metadata).message s =
      .ok (result, fd) s') :
    ∃ obj mapped, Kept env obj s' ∧ obj.size = size ∧ obj.shape = shape ∧ obj.dtype = dtype ∧
      obj.order = .leaf (.str order) ∧ Sized mapped size ∧
      pyItem result "object" = .ok (obj.toPublic env) ∧ pyItem result "mapping" = .ok mapped := by
  have hop : isText "create"
      (getKey (Operation.create size shape dtype order metadata).message "op") = true := rfl
  by_cases hcreates : ∃ args size' region, Creates env s
      (Operation.create size shape dtype order metadata).message args size' region
  · obtain ⟨args, size', region, hcreates⟩ := hcreates
    obtain ⟨mapped, fd', s₁, hmapping, hrun, hsame⟩ | ⟨e, s₁, -, hrun, -⟩ :=
      handle_registered endpoint hop hcreates
    · cases hrun.symm.trans h
      cases hcreates.hargs
      have hsize := hcreates.hsize
      cases hsize
      have hregion := newRegion_size hcreates.hregion
      refine ⟨newObject env s size _, mapped, ?_, rfl, rfl, rfl, rfl, ?_, rfl, rfl⟩
      · refine Kept.unchanged ⟨?_, ⟨region, ?_, hregion⟩, s.ticks, ?_, rfl⟩ hsame
        · intro obj' hobj'
          exact (Option.some.inj (Dict.get?_set_self.symm.trans hobj')).symm
        · exact List.getElem?_concat_length
        · exact Nat.lt_add_of_pos_right (by decide)
      · rw [← hregion]
        exact writeMapping_sized hmapping
    · cases hrun.symm.trans h
  · push Not at hcreates
    obtain ⟨e, s₁, hrun, -⟩ := handle_refused endpoint hop hcreates
    cases hrun.symm.trans h

end Answers

/-! ## Created and opened objects -/

/-- In a run of the server, this result answers the request, or a later request to open the object
that the request has created. -/
inductive Attached (env : Environment) (endpoint : String) (op : Operation) :
    Message → Option ℕ → Prop
  | created {before : List Exchange} {s s' : State} {x : Exchange} {result : Message}
    {fd : Option ℕ} (hrun : Run (Serve env endpoint) .init before s)
    (hserve : Serve env endpoint s x s') (hrequest : x.request = op.message)
    (houtcome : x.outcome = .ok (result, fd)) : Attached env endpoint op result fd
  | opened {before later : List Exchange} {s s' s₁ s₂ : State} {x y : Exchange}
    {created info result : Message} {fd fd' : Option ℕ} {objectId token : String} {access : Access}
    (hrun : Run (Serve env endpoint) .init before s) (hserve : Serve env endpoint s x s')
    (hrequest : x.request = op.message) (houtcome : x.outcome = .ok (created, fd))
    (hobject : pyItem created "object" = .ok (.dict info))
    (hid : getKey info "object_id" = .leaf (.str objectId))
    (hlater : Run (Serve env endpoint) s' later s₁) (hopen : Serve env endpoint s₁ y s₂)
    (hopenRequest : y.request = (Operation.openObject objectId token access).message)
    (hopenOutcome : y.outcome = .ok (result, fd')) : Attached env endpoint op result fd'

/-- The client maps so many bytes at an address. -/
def Maps (host : Host) (access : Access) (size : ℤ) (base : ℕ) : Prop :=
  (∃ number, host.mmap number size access = .ok base) ∨
    ∃ name, host.mmapNamed name size access = .ok base

/-- Whoever opens the mapping maps as many bytes as the shape needs, and the array of this shape
lies in them. -/
def Fits {D : Type} (np : Dtypes D) (shape : List ℤ) (itemsize : ℕ) (result : Message)
    (fd : Option ℕ) : Prop :=
  ∃ info mapping, pyItem result "object" = .ok (.dict info) ∧
    pyItem result "mapping" = .ok mapping ∧
    ∀ host access session base session',
      openMapping host mapping fd access session = .ok base session' →
      Maps host access (shape.prod * itemsize) base ∧
      ∀ buffer : Buffer, buffer.base = base → buffer.size = shape.prod * itemsize →
        shape.length ≤ 64 → ∃ array, numpy np info (some buffer) = .ok array ∧
          array.shape = shape.map Int.toNat ∧ array.dtype.itemsize = itemsize ∧
          ∀ x, array.Touches x → buffer.Contains x

section Attaching
variable {env : Environment} {endpoint : String} {s s' : State} {x : Exchange} {reply : Reply}

theorem serve_ok (h : Serve env endpoint s x s') (houtcome : x.outcome = .ok reply) :
    handle env endpoint x.request s = .ok reply s' := by
  obtain ⟨hout, hfinal, -⟩ := h
  rw [houtcome] at hout
  cases hrun : handle env endpoint x.request s with
  | ok reply' s₁ =>
    rw [hrun] at hout hfinal
    cases hout
    cases hfinal
    rfl
  | error e s₁ =>
    rw [hrun] at hout
    cases hout

theorem toPublic_eq (env : Environment) (obj : ObjectRecord) :
    ∃ info, obj.toPublic env = .dict info ∧ getKey info "shape" = obj.shape ∧
      getKey info "dtype" = obj.dtype ∧ ∀ default, getOr info "order" default = obj.order :=
  ⟨_, rfl, rfl, rfl, fun _ => rfl⟩

/-- The record of an object has the values of its request, whoever gets it. -/
theorem Attached.record (hunique : env.Unique) {size : ℤ} {shape dtype : Json} {order : String}
    {metadata result : Message} {fd : Option ℕ}
    (h : Attached env endpoint (.create size shape dtype order metadata) result fd) :
    ∃ (obj : ObjectRecord) (mapped : Json), obj.shape = shape ∧ obj.dtype = dtype ∧
      obj.order = .leaf (.str order) ∧ Sized mapped size ∧
      pyItem result "object" = .ok (obj.toPublic env) ∧ pyItem result "mapping" = .ok mapped := by
  cases h with
  | created hrun hserve hrequest houtcome =>
    have hhandle := serve_ok hserve houtcome
    rw [hrequest] at hhandle
    obtain ⟨obj, mapped, -, -, hshape, hdtype, horder, hsized, hobject, hmapping⟩ :=
      handle_array hhandle
    exact ⟨obj, mapped, hshape, hdtype, horder, hsized, hobject, hmapping⟩
  | opened hrun hserve hrequest houtcome hinfo hid hlater hopen hopenRequest hopenOutcome =>
    have hhandle := serve_ok hserve houtcome
    rw [hrequest] at hhandle
    obtain ⟨obj, mapped, hkept, hsize, hshape, hdtype, horder, -, hobject, -⟩ :=
      handle_array hhandle
    cases hobject.symm.trans hinfo
    cases hid
    have hhandle' := serve_ok hopen hopenOutcome
    rw [hopenRequest] at hhandle'
    obtain ⟨obj', region', mapped', hobj', hregion', hsized', rfl⟩ := handle_open hhandle'
    have hkept' := hkept.serve hunique hlater
    cases hkept'.record obj' hobj'
    obtain ⟨region, hregion, hsame⟩ := hkept'.region
    cases hregion.symm.trans hregion'
    rw [hsame, hsize] at hsized'
    exact ⟨obj, mapped', hshape, hdtype, horder, hsized', rfl, rfl⟩

theorem compute_eq_ok {α : Type} {value : Except PyError α} {a : α} {session session' : Session}
    (h : compute value session = .ok a session') : value = .ok a := by
  cases value with
  | ok b =>
    cases h
    rfl
  | error e => cases h

theorem openMapping_length {host : Host} {mapping : Json} {fd : Option ℕ} {access : Access}
    {session session' : Session} {base : ℕ} {size : ℤ} (hsized : Sized mapping size)
    (h : openMapping host mapping fd access session = .ok base session') :
    Maps host access size base := by
  obtain ⟨entries, rfl, hsize⟩ := hsized
  have hlength : (pyItem entries "size" >>= pyInt host.intOfStr) = .ok size := by
    rw [hsize]
    rfl
  unfold openMapping at h
  dsimp only at h
  rw [hlength] at h
  obtain ⟨length, s₁, hcompute, h⟩ := bind_eq_ok.mp h
  cases hcompute
  by_cases hmemfd : isText "memfd" (getKey entries "backend") = true
  · rw [if_pos hmemfd] at h
    cases fd with
    | none => cases h
    | some number =>
      obtain ⟨u, s₂, -, h⟩ := bind_eq_ok.mp h
      exact .inl ⟨number, compute_eq_ok h⟩
  rw [if_neg hmemfd] at h
  by_cases hnamed : isText "windows_named" (getKey entries "backend") = true
  · rw [if_pos hnamed] at h
    by_cases hnt : host.nt = false
    · rw [if_pos hnt] at h
      cases h
    rw [if_neg hnt] at h
    by_cases hname : truthy (getKey entries "name") = false
    · rw [if_pos hname] at h
      cases h
    · rw [if_neg hname] at h
      exact .inr ⟨_, compute_eq_ok h⟩
  · rw [if_neg hnamed] at h
    obtain ⟨u, s₂, -, h⟩ := bind_eq_ok.mp h
    cases h

end Attaching

section Sizes
variable {D : Type} {np : Dtypes D} {size : Option ℤ} {shape : List ℤ} {dtype : D} {dt : NpDtype}
  {order : String} {a : CreateArgs}

theorem ArrayRequest.fits (h : ArrayRequest shape dt a) (hnames : np.Names dt)
    (hitem : 0 < dt.itemsize) (hsize : a.size = shape.prod * dt.itemsize) {env : Environment}
    (hunique : env.Unique) {endpoint : String} {metadata result : Message} {fd : Option ℕ}
    (hattached : Attached env endpoint (a.operation metadata) result fd) :
    Fits np shape dt.itemsize result fd := by
  obtain ⟨obj, mapped, hobjShape, hobjDtype, hobjOrder, hsized, hobject, hmapping⟩ :=
    hattached.record hunique
  obtain ⟨info, hinfo, hshape, htype, horder⟩ := toPublic_eq env obj
  rw [hinfo] at hobject
  obtain ⟨d, hd, hditem⟩ := hnames
  refine ⟨_, mapped, hobject, hmapping, ?_⟩
  intro host access session base session' hopen
  rw [hsize] at hsized
  refine ⟨openMapping_length hsized hopen, ?_⟩
  intro buffer hbase hbuffer haxes
  have hnumpy := h.numpy_eq (hshape.trans hobjShape) (htype.trans hobjDtype)
    ((horder _).trans hobjOrder) hd buffer
  rw [← hditem] at hitem hbuffer
  obtain ⟨array, harray, hdt, hdims, htouches⟩ := ndarray_fits haxes h.dims hitem hbuffer.ge
  refine ⟨array, hnumpy.trans harray, hdims, ?_, htouches⟩
  rw [hdt, hditem]

/-- The size that `create` asks for is exact, and every array of the object fits its mapping, if and
only if the product of the dimensions is less than `2 ^ 63`. -/
theorem requested_size_iff (hdtype : np.dtype dtype = .ok dt) (hnames : np.Names dt)
    (hitem : 0 < dt.itemsize)
    (hargs : createArgs np size (some shape) (some dtype) order = .ok a) :
    (a.size = shape.prod * dt.itemsize ∧ ∀ env endpoint metadata result fd, env.Unique →
      Attached env endpoint (a.operation metadata) result fd →
      Fits np shape dt.itemsize result fd) ↔ shape.prod < 2 ^ 63 := by
  have h := createArgs_ok hdtype hargs
  constructor
  · intro hexact
    exact (h.exact_iff hitem).mp hexact.1
  · intro hprod
    have hsize := (h.exact_iff hitem).mpr hprod
    exact ⟨hsize, fun env endpoint metadata result fd hunique hattached =>
      h.fits hnames hitem hsize hunique hattached⟩

end Sizes

/-! ## Samples -/

section Samples

/-- One type, of single bytes. -/
def byteTypes : Dtypes Unit := ⟨fun _ => .ok (.plain uint8), fun _ => .ok uint8⟩

theorem byteTypes_names : byteTypes.Names (.plain uint8) := ⟨uint8, rfl, rfl⟩

/-- Two rows of three bytes. -/
theorem requested_size_iff_rows : (6 : ℤ) = [(2 : ℤ), 3].prod * (1 : ℕ) ∧
    ∀ env endpoint metadata result fd, env.Unique →
      Attached env endpoint ((CreateArgs.mk 6 (some [2, 3]) (some "|u1") "C").operation metadata)
        result fd → Fits byteTypes [2, 3] 1 result fd := by
  have hargs : createArgs byteTypes none (some [2, 3]) (some ()) "C" =
      .ok ⟨6, some [2, 3], some "|u1", "C"⟩ := rfl
  exact (requested_size_iff rfl byteTypes_names Nat.one_pos hargs).mpr (by decide)

/-- The product of these dimensions is `2 ^ 64 + 2`. -/
def wrappedShape : List ℤ := [3, 6148914691236517206]

def wrappedArgs : CreateArgs := ⟨2, some wrappedShape, some "|u1", "C"⟩

theorem wrappedArgs_ok : createArgs byteTypes none (some wrappedShape) (some ()) "C" =
    .ok wrappedArgs := rfl

/-- Two bytes are asked for, and given; `numpy` raises then, wherever they are mapped. -/
theorem wrapped_size : createArgs byteTypes none (some wrappedShape) (some ()) "C" =
      .ok wrappedArgs ∧ wrappedArgs.size ≠ wrappedShape.prod * uint8.itemsize ∧
    ∃ result fd info, Attached plainEnvironment "" (wrappedArgs.operation []) result fd ∧
      pyItem result "object" = .ok (.dict info) ∧
      ∀ buffer, ∃ e, numpy byteTypes info (some buffer) = .error e := by
  refine ⟨wrappedArgs_ok, by decide, ?_⟩
  have hdtype : byteTypes.dtype () = .ok (.plain uint8) := rfl
  have h := createArgs_ok hdtype wrappedArgs_ok
  have hcreates : Creates plainEnvironment .init (wrappedArgs.operation []).message
      (wrappedArgs.operation []).args 2 (.memfd 1 2 ("mstore-" ++ letters 'o' 0)) :=
    ⟨rfl, rfl, by decide, rfl⟩
  obtain ⟨mapped, fd, s', hmapping, hrun, -⟩ | ⟨e, s', hmapping, -⟩ :=
    handle_registered "" rfl hcreates
  · obtain ⟨info, hinfo, hshape, htype, horder⟩ := toPublic_eq plainEnvironment
      (newObject plainEnvironment .init 2 (wrappedArgs.operation []).args)
    have hserve : Serve plainEnvironment "" .init
        ⟨(wrappedArgs.operation []).message,
          (actionOf plainEnvironment (wrappedArgs.operation []).message).map fun action =>
            ⟨action, outcomeOf (perform plainEnvironment action .init)⟩,
          .ok (createResult plainEnvironment .init 2 (wrappedArgs.operation []).args mapped, fd)⟩
        s' := by
      refine ⟨?_, ?_, rfl⟩
      · rw [hrun]
        rfl
      · rw [hrun]
        rfl
    refine ⟨_, fd, info, .created .nil hserve rfl rfl, ?_, ?_⟩
    · rw [← hinfo]
      rfl
    · intro buffer
      rw [h.numpy_eq hshape htype (horder _) rfl]
      exact ndarray_wrapped h.dims Nat.one_pos (by decide)
  · cases hmapping

end Samples
end Npb.Mstore
