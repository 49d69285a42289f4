import Npb.Mstore.Worker

/-! # Refusals

What the handler of a request can raise. The texts of most exceptions are fixed or come from the
operating system, and are short; three quote the client: its operation, its permissions, or its
object. Which request is refused with which of these is decided by the request and the registry
(`Quoted`), and everything else that is raised is `Brief`. -/

namespace Npb.Mstore
set_option autoImplicit false
open Effects

/-! ## Short texts -/

/-- The text of the exception is a short one. -/
def Brief (env : Environment) (exc : Failure) : Prop := (exc.text env.repr).length ≤ 4096

/-- What the environment raises, or says about a text of ours, is short. -/
structure Environment.Terse (env : Environment) : Prop where
  memfdCreate : ∀ n name e, env.memfdCreate n name = .error e → Brief env (.python e)
  ftruncate : ∀ n fd size e, env.ftruncate n fd size = .error e → Brief env (.python e)
  openReadOnly : ∀ n fd e, env.openReadOnly n fd = .error e → Brief env (.python e)
  dup : ∀ n fd e, env.dup n fd = .error e → Brief env (.python e)
  mmap : ∀ n size name e, env.mmap n size name = .error e → Brief env (.python e)
  sortedRepr : ∀ xs e, env.sortedRepr xs = .error e → Brief env (.python e)
  permission : ∀ (p : Permission) text, env.sortedRepr [.str p.name] = .ok text →
    text.length ≤ 4000
  /-- At most ten characters for one, and the quotes. -/
  repr : ∀ s : String, (env.repr (.leaf (.str s))).length ≤ 10 * s.length + 2

section Brief
variable {env : Environment} {message : String}

theorem brief_mstore {cls : ErrorClass} (h : message.length ≤ 4096) :
    Brief env (.mstore cls message) := h

theorem brief_typeError (h : message.length ≤ 4096) :
    Brief env (.python (.typeError message)) := h

theorem brief_valueError (h : message.length ≤ 4096) :
    Brief env (.python (.valueError message)) := h

theorem brief_overflowError (h : message.length ≤ 4096) :
    Brief env (.python (.overflowError message)) := h

theorem brief_other {className : String} (h : message.length ≤ 4096) :
    Brief env (.python (.other className message)) := h

end Brief

/-! ## Computations that raise some exceptions only -/

/-- Whatever the call raises is of this kind. -/
def Raises {α : Type} (P : Failure → Prop) (x : Call α) : Prop := ∀ s e s', x s = .error e s' → P e

section Raises
variable {α β : Type} {P : Failure → Prop}

theorem raises_pure (a : α) : Raises P (pure a) := nofun

theorem raises_fromExcept {x : Except Failure α} (h : ∀ e, x = .error e → P e) :
    Raises P (fromExcept x) := by
  intro s e s' hrun
  obtain ⟨hx, -⟩ := fromExcept_eq_error.mp hrun
  exact h e hx

theorem raises_python {x : Except PyError α} (h : ∀ e, x = .error e → P (.python e)) :
    Raises P (fromExcept (python x)) := by
  apply raises_fromExcept
  intro e hx
  cases x with
  | ok a => cases hx
  | error e' =>
    cases hx
    exact h e' rfl

theorem raises_raise {e : Failure} (h : P e) : Raises P (raise e : Call α) := by
  apply raises_fromExcept
  intro e' he
  cases he
  exact h

theorem raises_raiseIf {c : Prop} [Decidable c] {e : Failure} (h : P e) :
    Raises P (fromExcept (raiseIf c e)) := by
  apply raises_fromExcept
  intro e' he
  obtain ⟨-, rfl⟩ := raiseIf_eq_error.mp he
  exact h

theorem raises_bind {x : Call α} {f : α → Call β} (hx : Raises P x) (hf : ∀ a, Raises P (f a)) :
    Raises P (x >>= f) := by
  intro s e s' h
  obtain h | ⟨a, s'', -, h⟩ := bind_eq_error.mp h
  · exact hx s e s' h
  · exact hf a s'' e s' h

theorem raises_ask_bind {answers : ℕ → α} {f : α → Call β}
    (hf : ∀ n, Raises P (f (answers n))) : Raises P (ask answers >>= f) := by
  intro s e s' h
  rw [bind_ok (ask_run answers s)] at h
  exact hf _ _ e s' h

theorem raises_get_bind {f : State → Call β} (hf : ∀ s, Raises P (f s)) :
    Raises P (get >>= f) := by
  intro s e s' h
  rw [bind_ok (get_run s)] at h
  exact hf s s e s' h

end Raises

/-! ## Arguments -/

section Arguments
variable {env : Environment} {args request : Message} {e : Failure}

theorem pyInt_brief {f : String → Option ℤ} {j : Json} {e : PyError} (h : pyInt f j = .error e) :
    Brief env (.python e) := by
  cases j with
  | leaf scalar =>
    induction scalar with
    | none =>
      cases h
      exact brief_typeError (by decide +kernel)
    | bool b => cases h
    | int i => cases h
    | float x =>
      cases x with
      | nan =>
        cases h
        exact brief_valueError (by decide +kernel)
      | inf negative =>
        cases h
        exact brief_overflowError (by decide +kernel)
      | finite negative mantissa exponent => cases h
    | str s =>
      dsimp only [pyInt, pyInt.ofScalar] at h
      cases hs : f s with
      | some i =>
        rw [hs] at h
        cases h
      | none =>
        rw [hs] at h
        cases h
        exact brief_valueError (by decide +kernel)
    | generic item ih => exact ih h
    | other typeName =>
      cases h
      exact brief_typeError (by decide +kernel)
  | list xs =>
    cases h
    exact brief_typeError (by decide +kernel)
  | dict kvs =>
    cases h
    exact brief_typeError (by decide +kernel)

theorem requestArgs_brief (h : requestArgs request = .error e) : Brief env e := by
  unfold requestArgs at h
  split at h
  · cases h
  · cases h
    exact brief_mstore (by decide +kernel)

/-- A missing size is reported as such; other texts are those of `int`. -/
theorem sizeArg_brief (h : sizeArg env args = .error e) : Brief env e := by
  unfold sizeArg at h
  cases hsize : pyItem args "size" >>= pyInt env.intOfStr with
  | ok size =>
    rw [hsize] at h
    cases h
  | error e' =>
    rw [hsize] at h
    cases h
    by_cases hcaught : e'.isLookupOrConversionError = true
    · rw [if_pos hcaught]
      exact brief_mstore (by decide +kernel)
    · rw [if_neg hcaught]
      obtain hitem | ⟨size, -, hint⟩ := except_bind_eq_error.mp hsize
      · unfold pyItem at hitem
        split at hitem
        · cases hitem
        · cases hitem
          exact absurd rfl hcaught
      · exact pyInt_brief hint

theorem textArg_brief {key : String} (h : textArg env args key = .error e) : Brief env e := by
  unfold textArg pyStr at h
  split at h
  · cases h
  · split at h
    · cases h
    · cases h
      exact brief_valueError (by decide +kernel)

end Arguments

/-! ## Regions -/

section Regions
variable {env : Environment}

theorem createRegion_brief (hterse : env.Terse) (size : ℤ) (objectId : String) :
    Raises (Brief env) (createRegion env size objectId) := by
  unfold createRegion
  cases env.platform with
  | windows =>
    apply raises_ask_bind
    intro n
    apply raises_ask_bind
    intro n
    apply raises_bind
    · exact raises_python (hterse.mmap n size _)
    · exact fun _ => raises_pure _
  | linux =>
    apply raises_ask_bind
    intro n
    apply raises_bind
    · exact raises_python (hterse.memfdCreate n _)
    intro fd
    apply raises_ask_bind
    intro n
    apply raises_bind
    · exact raises_python (hterse.ftruncate n fd size)
    · exact fun _ => raises_pure _
  | other => exact raises_raise (brief_other (by decide +kernel))

theorem clientMapping_brief (hterse : env.Terse) (region : Region) (p : Permission) :
    Raises (Brief env) (clientMapping env region p.name) := by
  have hmode : Brief env (.python (.valueError ("unsupported mapping mode: " ++ p.name))) := by
    cases p <;> exact brief_valueError (by decide +kernel)
  unfold clientMapping
  cases region with
  | memfd fd size name =>
    dsimp only
    by_cases hread : p.name = "read"
    · rw [if_pos hread]
      apply raises_ask_bind
      intro n
      apply raises_bind
      · exact raises_python (hterse.openReadOnly n fd)
      · exact fun _ => raises_pure _
    rw [if_neg hread]
    by_cases hwrite : p.name = "write"
    · rw [if_pos hwrite]
      apply raises_ask_bind
      intro n
      apply raises_bind
      · exact raises_python (hterse.dup n fd)
      · exact fun _ => raises_pure _
    · rw [if_neg hwrite]
      exact raises_raise hmode
  | windowsNamed closed size name =>
    dsimp only
    by_cases hmodes : p.name ≠ "read" ∧ p.name ≠ "write"
    · rw [if_pos hmodes]
      exact raises_raise hmode
    · rw [if_neg hmodes]
      exact raises_pure _

theorem regionMapping_brief (hterse : env.Terse) (region : ℕ) (p : Permission) :
    Raises (Brief env) (regionMapping env region p.name) := by
  apply raises_get_bind
  intro s
  cases s.regions[region]? with
  | some region => exact clientMapping_brief hterse region p
  | none =>
    apply raises_raise
    have hkey := hterse.repr "region"
    have hlength : ("region" : String).length = 6 := by decide
    show (env.repr (.leaf (.str "region"))).length ≤ 4096
    omega

end Regions

/-! ## Calls -/

/-- What `validate` says of an object that is not registered. -/
def noSuchObject (env : Environment) (objectId : String) : Failure :=
  .mstore .objectNotFound ("object " ++ env.repr (.leaf (.str objectId)) ++ " does not exist")

/-- The calls that are refused with a text of the client: the permissions to grant are none that
there are, or the object is not registered. -/
inductive Refuses (env : Environment) (s : State) : Action → Failure → Prop
  | permissions (objectId rawToken : String) (permissions expiresIn : Json) (e : Failure)
    (hpermissions : normalizePermissions env.sortedRepr permissions = .error e) :
    Refuses env s (.issueToken objectId rawToken permissions expiresIn) e
  | granted (objectId rawToken : String) (permissions expiresIn : Json)
    (requested : Finset Permission)
    (hpermissions : normalizePermissions env.sortedRepr permissions = .ok requested)
    (hraw : rawToken ≠ "") (hobject : s.registry.objects.get? objectId = none) :
    Refuses env s (.issueToken objectId rawToken permissions expiresIn)
      (noSuchObject env objectId)
  | validated (objectId rawToken : String) (p : Permission) (hraw : rawToken ≠ "")
    (hobject : s.registry.objects.get? objectId = none) :
    Refuses env s (.validate objectId rawToken (.leaf (.str p.name))) (noSuchObject env objectId)
  | revoked (objectId rawToken targetRaw : String) (hraw : rawToken ≠ "")
    (hobject : s.registry.objects.get? objectId = none) :
    Refuses env s (.revokeToken objectId rawToken targetRaw) (noSuchObject env objectId)
  | deleted (objectId rawToken : String) (hraw : rawToken ≠ "")
    (hobject : s.registry.objects.get? objectId = none) :
    Refuses env s (.deleteObject objectId rawToken) (noSuchObject env objectId)

section Calls
variable {env : Environment} {s s' : State} {objectId rawToken : String} {p : Permission}
  {e : Failure}

theorem validate_missing (hraw : rawToken ≠ "")
    (hobject : s.registry.objects.get? objectId = none) :
    validate env objectId rawToken (.leaf (.str p.name)) s =
      .error (noSuchObject env objectId) s := by
  rw [validate, fromExcept_raiseIf hraw, pure_bind, requiredSet_name, fromExcept_ok_bind,
    bind_ok (get_run s), hobject]
  rfl

theorem validate_error (hterse : env.Terse)
    (h : validate env objectId rawToken (.leaf (.str p.name)) s = .error e s') :
    Brief env e ∨ (rawToken ≠ "" ∧ s.registry.objects.get? objectId = none ∧
      e = noSuchObject env objectId) := by
  rw [validate, raiseIf_run_eq_error, requiredSet_name, fromExcept_ok_bind,
    bind_ok (get_run s)] at h
  obtain ⟨-, rfl, -⟩ | ⟨hraw, h⟩ := h
  · exact .inl (brief_mstore (by decide +kernel))
  cases hobject : s.registry.objects.get? objectId with
  | none =>
    rw [hobject] at h
    cases h
    exact .inr ⟨hraw, rfl, rfl⟩
  | some obj =>
  left
  cases htoken : s.registry.tokens.get? (env.hashToken rawToken) with
  | none =>
    rw [hobject, htoken] at h
    cases h
    exact brief_mstore (by decide +kernel)
  | some token =>
    rw [hobject, htoken] at h
    dsimp only at h
    rw [raiseIf_run_eq_error, raiseIf_run_eq_error, bind_ok (ask_run _ s), raiseIf_run_eq_error,
      raiseIf_run_eq_error] at h
    obtain ⟨-, rfl, -⟩ | ⟨-, ⟨-, rfl, -⟩ | ⟨-, ⟨-, rfl, -⟩ | ⟨-, ⟨-, rfl, -⟩ | ⟨-, h⟩⟩⟩⟩ := h
    · exact brief_mstore (by decide +kernel)
    · exact brief_mstore (by decide +kernel)
    · exact brief_mstore (by decide +kernel)
    · exact brief_mstore (by decide +kernel)
    by_cases hholds : p.name ∈ sortedNames token.permissions
    · rw [List.filter_cons_of_neg (by simpa using hholds), List.filter_nil, if_pos rfl] at h
      cases h
    · rw [List.filter_cons_of_pos (by simpa using hholds), List.filter_nil, if_neg (by simp),
        List.map_singleton, fromExcept_bind_eq_error] at h
      obtain ⟨hpython, -⟩ | ⟨text, htext, h⟩ := h
      · cases hsorted : env.sortedRepr [.str p.name] with
        | ok text =>
          rw [hsorted] at hpython
          cases hpython
        | error e' =>
          rw [hsorted] at hpython
          cases hpython
          exact hterse.sortedRepr _ e' hsorted
      · cases h
        have hlength := hterse.permission p text (python_eq_ok.mp htext)
        apply brief_mstore
        rw [String.length_append]
        have hprefix : ("token lacks permission(s): " : String).length = 27 := by decide
        omega

theorem numberOf_brief {expiresIn : Json} {e : PyError} (h : numberOf expiresIn = .error e) :
    Brief env (.python e) := by
  cases expiresIn with
  | leaf scalar =>
    induction scalar with
    | none =>
      cases h
      exact brief_typeError (by decide +kernel)
    | bool b => cases h
    | int i => cases h
    | float x => cases h
    | str text =>
      cases h
      exact brief_typeError (by decide +kernel)
    | generic item ih => exact ih h
    | other typeName =>
      cases h
      exact brief_typeError (by decide +kernel)
  | list xs =>
    cases h
    exact brief_typeError (by decide +kernel)
  | dict kvs =>
    cases h
    exact brief_typeError (by decide +kernel)

theorem toFloat_brief {seconds : Number} {e : PyError} (h : seconds.toFloat = .error e) :
    Brief env (.python e) := by
  cases seconds with
  | float x => cases h
  | int i =>
    by_cases hbig : floatLimit ≤ |i|
    · rw [Number.toFloat, if_pos hbig] at h
      cases h
      exact brief_overflowError (by decide +kernel)
    · rw [Number.toFloat, if_neg hbig] at h
      cases h

theorem expiryOf_brief (expiresIn : Json) (issuer : Option Instant) :
    Raises (Brief env) (expiryOf env expiresIn issuer) := by
  unfold expiryOf
  split
  · exact raises_pure _
  apply raises_bind
  · exact raises_python fun e he => numberOf_brief he
  intro seconds
  apply raises_bind
  · exact raises_raiseIf (brief_mstore (by decide +kernel))
  intro _
  apply raises_ask_bind
  intro n
  apply raises_bind
  · exact raises_python fun e he => toFloat_brief he
  intro seconds
  cases issuer with
  | none => exact raises_pure _
  | some limit => exact raises_pure _

theorem issueLocked_brief (obj : ObjectRecord) (permissions : Finset Permission)
    (expiresAt : Option Instant) :
    Raises (Brief env) (issueLocked env obj permissions expiresAt) := nofun

theorem createObject_brief (hterse : env.Terse) (size : ℤ) (shape dtype order metadata : Json) :
    Raises (Brief env) (createObject env size shape dtype order metadata) := by
  unfold createObject
  apply raises_bind
  · exact raises_raiseIf (brief_mstore (by decide +kernel))
  intro _
  apply raises_ask_bind
  intro n
  apply raises_bind
  · exact createRegion_brief hterse size _
  intro region
  exact nofun

theorem perform_refused {action : Action} (h : Refuses env s action e) :
    perform env action s = .error e s := by
  cases h with
  | permissions objectId rawToken permissions expiresIn e hpermissions =>
    rw [perform, issueToken, hpermissions]
    rfl
  | granted objectId rawToken permissions expiresIn requested hpermissions hraw hobject =>
    have hvalidate : validate env objectId rawToken (.leaf (.str "grant")) s = _ :=
      validate_missing (p := .grant) hraw hobject
    rw [perform, issueToken, hpermissions, fromExcept_ok_bind]
    exact bind_error (bind_error hvalidate _) _
  | validated objectId rawToken p hraw hobject =>
    exact bind_error (validate_missing hraw hobject) _
  | revoked objectId rawToken targetRaw hraw hobject =>
    have hvalidate : validate env objectId rawToken (.leaf (.str "grant")) s = _ :=
      validate_missing (p := .grant) hraw hobject
    exact bind_error (bind_error hvalidate _) _
  | deleted objectId rawToken hraw hobject =>
    have hvalidate : validate env objectId rawToken (.leaf (.str "delete")) s = _ :=
      validate_missing (p := .delete) hraw hobject
    exact bind_error (bind_error hvalidate _) _

theorem issueToken_rest (requested : Finset Permission) (obj : ObjectRecord) (issuer : TokenRecord)
    (expiresIn : Json) : Raises (Brief env) (do
      fromExcept (raiseIf (¬ requested ⊆ issuer.permissions) (.mstore .permissionDenied
        "cannot delegate permissions the issuer does not possess"))
      let expiresAt ← expiryOf env expiresIn issuer.expiresAt
      issueLocked env obj requested expiresAt) := by
  apply raises_bind
  · exact raises_raiseIf (brief_mstore (by decide +kernel))
  intro _
  apply raises_bind
  · exact expiryOf_brief expiresIn issuer.expiresAt
  · exact fun expiresAt => issueLocked_brief obj requested expiresAt

theorem issueToken_error (hterse : env.Terse) {permissions expiresIn : Json}
    (h : issueToken env objectId rawToken permissions expiresIn s = .error e s') :
    Brief env e ∨ Refuses env s (.issueToken objectId rawToken permissions expiresIn) e := by
  rw [issueToken, fromExcept_bind_eq_error] at h
  obtain ⟨hpermissions, -⟩ | ⟨requested, hpermissions, h⟩ := h
  · exact .inr (.permissions _ _ _ _ e hpermissions)
  obtain hvalidate | ⟨⟨obj, issuer⟩, s'', -, h⟩ := bind_eq_error.mp h
  · obtain hbrief | ⟨hraw, hobject, rfl⟩ := validate_error (p := .grant) hterse hvalidate
    · exact .inl hbrief
    · exact .inr (.granted _ _ _ _ requested hpermissions hraw hobject)
  · exact .inl (issueToken_rest requested obj issuer expiresIn _ _ _ h)

theorem revokeToken_error (hterse : env.Terse) {targetRaw : String}
    (h : revokeToken env objectId rawToken targetRaw s = .error e s') :
    Brief env e ∨ Refuses env s (.revokeToken objectId rawToken targetRaw) e := by
  obtain hvalidate | ⟨authorised, s'', -, h⟩ := bind_eq_error.mp h
  · obtain hbrief | ⟨hraw, hobject, rfl⟩ := validate_error (p := .grant) hterse hvalidate
    · exact .inl hbrief
    · exact .inr (.revoked _ _ targetRaw hraw hobject)
  · refine .inl ((raises_get_bind fun s => ?_ : Raises (Brief env) _) _ _ _ h)
    cases s.registry.tokens.get? (env.hashToken targetRaw) with
    | none => exact raises_raise (brief_mstore (by decide +kernel))
    | some target =>
      apply raises_bind
      · exact raises_raiseIf (brief_mstore (by decide +kernel))
      intro _
      apply raises_bind
      · exact raises_raiseIf (brief_mstore (by decide +kernel))
      · exact fun _ => nofun

theorem deleteObject_error (hterse : env.Terse)
    (h : deleteObject env objectId rawToken s = .error e s') :
    Brief env e ∨ Refuses env s (.deleteObject objectId rawToken) e := by
  obtain hvalidate | ⟨authorised, s'', -, h⟩ := bind_eq_error.mp h
  · obtain hbrief | ⟨hraw, hobject, rfl⟩ := validate_error (p := .delete) hterse hvalidate
    · exact .inl hbrief
    · exact .inr (.deleted _ _ hraw hobject)
  · cases h

theorem perform_error (hterse : env.Terse) {action : Action}
    (hnames : ∀ objectId rawToken required, action = .validate objectId rawToken required →
      ∃ p : Permission, required = .leaf (.str p.name))
    (h : perform env action s = .error e s') : Brief env e ∨ Refuses env s action e := by
  cases action with
  | createObject size shape dtype order metadata =>
    obtain h | ⟨created, s'', -, h⟩ := bind_eq_error.mp h
    · exact .inl (createObject_brief hterse _ _ _ _ _ _ _ _ h)
    · cases h
  | validate objectId rawToken required =>
    obtain ⟨p, rfl⟩ := hnames _ _ _ rfl
    obtain h | ⟨authorised, s'', -, h⟩ := bind_eq_error.mp h
    · obtain hbrief | ⟨hraw, hobject, rfl⟩ := validate_error hterse h
      · exact .inl hbrief
      · exact .inr (.validated _ _ p hraw hobject)
    · cases h
  | issueToken objectId rawToken permissions expiresIn =>
    obtain h | ⟨token, s'', -, h⟩ := bind_eq_error.mp h
    · exact issueToken_error hterse h
    · cases h
  | revokeToken objectId rawToken targetRaw =>
    obtain h | ⟨_, s'', -, h⟩ := bind_eq_error.mp h
    · exact revokeToken_error hterse h
    · cases h
  | deleteObject objectId rawToken =>
    obtain h | ⟨_, s'', -, h⟩ := bind_eq_error.mp h
    · exact deleteObject_error hterse h
    · cases h
  | close =>
    obtain h | ⟨_, s'', -, h⟩ := bind_eq_error.mp h
    · obtain ⟨u, s'', hok⟩ := close_total s
      rw [hok] at h
      cases h
    · cases h

end Calls

/-! ## Requests -/

/-- The requests that are refused with a text of the client. -/
inductive Quoted (env : Environment) (s : State) (request : Message) : Failure → Prop
  | operation (args : Message) (target : String × String) (hargs : requestArgs request = .ok args)
    (htarget : requestTarget env args = some target)
    (hop : ∀ name ∈ operations, isText name (getKey request "op") = false) :
    Quoted env s request (unknownOperation env (getKey request "op"))
  | refused (action : Action) (e : Failure) (haction : actionOf env request = some action)
    (hrefuses : Refuses env s action e) : Quoted env s request e

section Requests
variable {env : Environment} {s s' : State} {request args : Message} {e : Failure}

theorem respond_brief (hterse : env.Terse) (op : Json) (args : Message) (answer : Answer) :
    Raises (Brief env) (respond env op args answer) := by
  cases answer with
  | created obj token =>
    apply raises_bind
    · exact regionMapping_brief hterse obj.region .write
    · exact fun _ => raises_pure _
  | validated obj token =>
    unfold respond
    dsimp only
    by_cases hopen : isText "open" op = true
    · rw [if_pos hopen]
      cases openRequired args with
      | none => exact raises_raise (brief_mstore (by decide +kernel))
      | some required =>
        apply raises_bind
        · exact regionMapping_brief hterse obj.region required
        · exact fun _ => raises_pure _
    · rw [if_neg hopen]
      exact raises_pure _
  | issued token => exact raises_pure _
  | done => exact raises_pure _

theorem actionOf_names {objectId rawToken : String} {required : Json}
    (h : actionOf env request = some (.validate objectId rawToken required)) :
    ∃ p : Permission, required = .leaf (.str p.name) := by
  unfold actionOf at h
  dsimp only at h
  split at h
  · cases h
  split at h
  · cases h
  split at h
  · split at h
    · cases h
    · cases h
  rw [Option.bind_eq_some_iff] at h
  obtain ⟨target, -, h⟩ := h
  unfold objectAction at h
  split at h
  · rw [Option.map_eq_some_iff] at h
    obtain ⟨p, -, h⟩ := h
    cases h
    exact ⟨p, rfl⟩
  split at h
  · cases h
    exact ⟨.info, rfl⟩
  split at h
  · cases h
  split at h
  · split at h
    · split at h
      · cases h
      · cases h
    · cases h
  split at h
  · cases h
  · cases h

theorem idle_error {op : Json} (h : Idle env op args e) : Brief env e ∨
    ∃ target, requestTarget env args = some target ∧
      (∀ name ∈ operations, isText name op = false) ∧ e = unknownOperation env op := by
  cases h with
  | size e hsize => exact .inl (sizeArg_brief hsize)
  | text key e htext => exact .inl (textArg_brief htext)
  | objectId => exact .inl (brief_mstore (by decide +kernel))
  | mode => exact .inl (brief_mstore (by decide +kernel))
  | target => exact .inl (brief_mstore (by decide +kernel))
  | unknown target htarget hop => exact .inr ⟨target, htarget, hop, rfl⟩

/-- Whatever the handler raises is short, or quotes the client. -/
theorem handle_error (hterse : env.Terse) (endpoint : String)
    (h : handle env endpoint request s = .error e s') : Brief env e ∨ Quoted env s request e := by
  cases haction : actionOf env request with
  | some action =>
    obtain ⟨args, -, hrun⟩ := handle_eq endpoint haction
    rw [hrun] at h
    obtain h | ⟨answer, s'', -, h⟩ := bind_eq_error.mp h
    · have hnames : ∀ objectId rawToken required,
          action = .validate objectId rawToken required →
          ∃ p : Permission, required = .leaf (.str p.name) := by
        rintro objectId rawToken required rfl
        exact actionOf_names haction
      obtain hbrief | hrefuses := perform_error hterse hnames h
      · exact .inl hbrief
      · exact .inr (.refused action e haction hrefuses)
    · exact .inl (respond_brief hterse _ args answer _ _ _ h)
  | none =>
    obtain ⟨-, reply, hrun⟩ | ⟨failure, hwhy, hrun⟩ := handle_idle endpoint haction
    · rw [hrun] at h
      cases h
    · rw [hrun] at h
      cases h
      obtain hargs | ⟨args, hargs, hidle⟩ := hwhy
      · exact .inl (requestArgs_brief hargs)
      obtain hbrief | ⟨target, htarget, hop, rfl⟩ := idle_error hidle
      · exact .inl hbrief
      · exact .inr (.operation args target hargs htarget hop)

theorem handle_unknown (endpoint : String) {target : String × String}
    (hargs : requestArgs request = .ok args) (htarget : requestTarget env args = some target)
    (hop : ∀ name ∈ operations, isText name (getKey request "op") = false) :
    handle env endpoint request = raise (unknownOperation env (getKey request "op")) := by
  unfold requestTarget at htarget
  cases hid : textArg env args "object_id" with
  | error e =>
    rw [hid] at htarget
    cases htarget
  | ok objectId =>
  cases htok : textArg env args "token" with
  | error e =>
    rw [hid, htok] at htarget
    cases htarget
  | ok token =>
    rw [hid, htok] at htarget
    dsimp only at htarget
    by_cases hempty : objectId = ""
    · rw [if_pos hempty] at htarget
      cases htarget
    · unfold handle
      dsimp only
      rw [hargs, fromExcept_ok_bind, hop "ping" (by decide), if_neg (by decide),
        hop "create" (by decide), if_neg (by decide), hid, htok, fromExcept_ok_bind, fromExcept_ok_bind,
        fromExcept_raiseIf hempty, pure_bind, hop "open" (by decide), hop "info" (by decide),
        hop "grant" (by decide), hop "revoke" (by decide), hop "delete" (by decide)]
      rfl

/-- A request that is refused with a text of the client leaves the registry as it was. -/
theorem handle_quoted (endpoint : String) (h : Quoted env s request e) :
    handle env endpoint request s = .error e s := by
  cases h with
  | operation args target hargs htarget hop =>
    rw [handle_unknown endpoint hargs htarget hop]
    rfl
  | refused action e haction hrefuses =>
    obtain ⟨args, -, hrun⟩ := handle_eq endpoint haction
    rw [hrun]
    exact bind_error (perform_refused hrefuses) _

end Requests
end Npb.Mstore
