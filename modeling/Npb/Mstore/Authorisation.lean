import Npb.Mstore.Integrity
import Npb.Mstore.Server

/-! # Authorisation

A request on an object succeeds only with a token that is in force and holds the permission the
request needs, and every token comes from the one returned when its object was created, by grants
that never widen what the token may do (`authorisation_sound`). -/

namespace Npb.Mstore
set_option autoImplicit false
open Effects

/-- The permission an operation on an object needs. -/
def neededPermission (op : Json) (args : List (String × Json)) : Option Permission :=
  if isText "open" op then openRequired args
  else if isText "info" op then some .info
  else if isText "grant" op then some .grant
  else if isText "revoke" op then some .grant
  else if isText "delete" op then some .delete
  else none

def objectOperations : List String := ["open", "info", "grant", "revoke", "delete"]

/-- The chain of grants behind a token: it starts with the token returned when the object was
created, and no link of it adds a permission. -/
inductive Descends (env : Environment) (calls : List Event) (objectId : String) :
    String → Finset Permission → Prop
  | created {size : ℤ} {shape dtype order metadata : Json} {obj : ObjectRecord} {raw : String}
    (hcall : ⟨.createObject size shape dtype order metadata, .ok (.created obj raw)⟩ ∈ calls)
    (hid : obj.objectId = objectId) : Descends env calls objectId raw allPermissions
  | granted {issuerRaw raw : String} {permissions expiresIn : Json}
    {held requested : Finset Permission} (hissuer : Descends env calls objectId issuerRaw held)
    (hcall : ⟨.issueToken objectId issuerRaw permissions expiresIn, .ok (.issued raw)⟩ ∈ calls)
    (hrequested : normalizePermissions env.sortedRepr permissions = .ok requested)
    (hshrinks : requested ⊆ held) : Descends env calls objectId raw requested

section Chains
variable {env : Environment} {calls calls' : List Event} {objectId raw : String}
  {permissions : Finset Permission} {s s' : State} {e : Event}

theorem Descends.mono (h : Descends env calls objectId raw permissions) (hsubset : calls ⊆ calls') :
    Descends env calls' objectId raw permissions := by
  induction h with
  | created hcall hid => exact .created (hsubset hcall) hid
  | granted hissuer hcall hrequested hshrinks ih =>
    exact .granted ih (hsubset hcall) hrequested hshrinks

/-- Every token on record has its chain. -/
def Traced (env : Environment) (calls : List Event) (s : State) : Prop :=
  ∀ h t, (h, t) ∈ s.registry.tokens.items →
    ∃ raw, env.hashToken raw = h ∧ Descends env calls t.objectId raw t.permissions

theorem Traced.step (h : Traced env calls s) (hrecords : Records env s) (hunique : env.Unique)
    (heffect : Effect env s e s') : Traced env (calls ++ [e]) s' := by
  have hold : ∀ k t, (k, t) ∈ s.registry.tokens.items →
      ∃ raw, env.hashToken raw = k ∧ Descends env (calls ++ [e]) t.objectId raw t.permissions := by
    intro k t ht
    obtain ⟨raw, hraw, hdescends⟩ := h k t ht
    exact ⟨raw, hraw, hdescends.mono (List.subset_append_left _ _)⟩
  have hlast : e ∈ calls ++ [e] := List.mem_append_right _ (List.mem_singleton_self e)
  intro k t ht
  cases heffect with
  | failed hsame =>
    rw [hsame.registry] at ht
    exact hold k t ht
  | created n m tick obj region now =>
    obtain heq | ⟨ht, -⟩ := Dict.mem_set.mp ht
    · cases heq
      exact ⟨_, rfl, .created hlast rfl⟩
    · exact hold k t ht
  | validated => exact hold k t ht
  | issued requested obj issuer expiresAt s₁ hrequested hauthorised hgrant hsubset =>
    obtain heq | ⟨ht, -⟩ := Dict.mem_set.mp ht
    · cases heq
      obtain ⟨issuerRaw', hraw, hissuer⟩ := hold _ issuer (Dict.get?_eq_some.mp hauthorised.known)
      -- The issuer's record is that of the token the request carried.
      cases hunique.hash hraw
      rw [hauthorised.bound] at hissuer
      refine ⟨_, rfl, ?_⟩
      rw [newToken, hrecords.object_id hauthorised.registered]
      exact .granted hissuer hlast hrequested hsubset
    · exact hold k t ht
  | revoked obj issuer target hauthorised hgrant htarget =>
    obtain heq | ⟨ht, -⟩ := Dict.mem_set.mp ht
    · cases heq
      exact hold _ target (Dict.get?_eq_some.mp htarget)
    · exact hold k t ht
  | deleted => exact hold k t (Dict.mem_filter.mp ht).1
  | closed => cases ht

end Chains

section Requests
variable {env : Environment} {endpoint : String} {args request : List (String × Json)}
  {action : Action} {answer : Answer} {s s' : State} {op : Json} {objectId token : String}

theorem objectAction_authorised (h : objectAction env op args objectId token = some action)
    (hrun : perform env action s = .ok answer s') :
    ∃ p obj record, neededPermission op args = some p ∧
      Authorised env s objectId token [p.name] obj record ∧ p ∈ record.permissions := by
  have heffect : Effect env s ⟨action, .ok answer⟩ s' := perform_effect hrun
  unfold objectAction at h
  unfold neededPermission
  by_cases hopen : isText "open" op = true
  · rw [if_pos hopen] at h ⊢
    rw [Option.map_eq_some_iff] at h
    obtain ⟨p, hp, rfl⟩ := h
    cases heffect with
    | validated names obj record hnames hauthorised =>
      rw [requiredSet_name] at hnames
      cases hnames
      exact ⟨p, obj, record, hp, hauthorised,
        mem_sortedNames.mp (hauthorised.holds _ (List.mem_singleton_self _))⟩
  rw [if_neg hopen] at h ⊢
  by_cases hinfo : isText "info" op = true
  · rw [if_pos hinfo] at h ⊢
    cases h
    cases heffect with
    | validated names obj record hnames hauthorised =>
      have hinfo : requiredSet env.sortedRepr (.leaf (.str "info")) = .ok ["info"] :=
        requiredSet_name .info
      rw [hinfo] at hnames
      cases hnames
      exact ⟨.info, obj, record, rfl, hauthorised,
        mem_sortedNames.mp (hauthorised.holds _ (List.mem_singleton_self _))⟩
  rw [if_neg hinfo] at h ⊢
  by_cases hgrant : isText "grant" op = true
  · rw [if_pos hgrant] at h ⊢
    cases h
    cases heffect with
    | issued requested obj issuer expiresAt s₁ hrequested hauthorised hholds =>
      exact ⟨.grant, obj, issuer, rfl, hauthorised, hholds⟩
  rw [if_neg hgrant] at h ⊢
  by_cases hrevoke : isText "revoke" op = true
  · rw [if_pos hrevoke] at h ⊢
    cases htarget : textArg env args "target_token" with
    | error e =>
      rw [htarget] at h
      cases h
    | ok target =>
      rw [htarget] at h
      dsimp only at h
      split at h
      · cases h
      · cases h
        cases heffect with
        | revoked obj issuer target hauthorised hholds =>
          exact ⟨.grant, obj, issuer, rfl, hauthorised, hholds⟩
  rw [if_neg hrevoke] at h ⊢
  by_cases hdelete : isText "delete" op = true
  · rw [if_pos hdelete] at h ⊢
    cases h
    cases heffect with
    | deleted obj record hauthorised hholds =>
      exact ⟨.delete, obj, record, rfl, hauthorised, hholds⟩
  · rw [if_neg hdelete] at h
    cases h

theorem handle_authorised {name : String} (hname : name ∈ objectOperations)
    (hop : isText name (getKey request "op") = true) {reply : Reply}
    (h : handle env endpoint request s = .ok reply s') :
    ∃ args p objectId token obj record, requestArgs request = .ok args ∧
      neededPermission (getKey request "op") args = some p ∧
      requestTarget env args = some (objectId, token) ∧
      Authorised env s objectId token [p.name] obj record ∧ p ∈ record.permissions := by
  have hother : ∀ text, text ∉ objectOperations → isText text (getKey request "op") = false := by
    intro text htext
    refine isText_other hop ?_
    intro heq
    exact htext (heq ▸ hname)
  have hping := hother "ping" (by decide)
  have hcreate := hother "create" (by decide)
  cases haction : actionOf env request with
  | none =>
    obtain ⟨hpinged, -⟩ | ⟨failure, -, hrun⟩ := handle_idle endpoint haction
    · rw [hping] at hpinged
      cases hpinged
    · rw [hrun] at h
      cases h
  | some action =>
    obtain ⟨args, hargs, hrun⟩ := handle_eq endpoint haction
    rw [hrun, bind_eq_ok] at h
    obtain ⟨answer, s₁, hperform, -⟩ := h
    unfold actionOf at haction
    rw [hargs] at haction
    simp only [hping, hcreate, Bool.false_eq_true, if_false] at haction
    rw [Option.bind_eq_some_iff] at haction
    obtain ⟨⟨objectId, token⟩, htarget, haction⟩ := haction
    obtain ⟨p, obj, record, hp, hauthorised, hholds⟩ :=
      objectAction_authorised haction hperform
    exact ⟨args, p, objectId, token, obj, record, hargs, hp, htarget, hauthorised, hholds⟩

variable {exchanges : List Exchange}

theorem served_traced (hunique : env.Unique)
    (hrun : Run (Serve env endpoint) .init exchanges s) :
    Records env s ∧ Traced env (callsOf exchanges) s := by
  refine hrun.history (I := fun exchanges s => Records env s ∧ Traced env (callsOf exchanges) s)
    ⟨?_, ?_⟩ ?_
  · exact (history_records hunique .nil).1
  · intro k t ht
    cases ht
  · intro exchanges x s₁ s₂ hbefore hI hserve
    obtain ⟨hrecords, htraced⟩ := hI
    unfold callsOf at *
    rw [List.filterMap_append]
    obtain ⟨hcall, hsame⟩ | ⟨e, s₃, hcall, hstep, hsame⟩ := serve_step hserve
    · refine ⟨hrecords.later hsame.ticks hsame.registry, ?_⟩
      intro k t ht
      rw [hsame.registry] at ht
      simpa [hcall] using htraced k t ht
    · have heffect := perform_effect hstep
      refine ⟨(hrecords.step hunique heffect).later hsame.ticks hsame.registry, ?_⟩
      intro k t ht
      rw [hsame.registry] at ht
      simpa [hcall] using htraced.step hrecords hunique heffect k t ht

/-- What holds of a server after the given exchanges. -/
structure Secure (env : Environment) (endpoint : String) (exchanges : List Exchange) (s : State) :
    Prop where
  /-- A request on an object that succeeds was authorised by the token it carries. -/
  authorised : ∀ request reply s' name, name ∈ objectOperations →
    isText name (getKey request "op") = true → handle env endpoint request s = .ok reply s' →
    ∃ args p objectId token obj record, requestArgs request = .ok args ∧
      neededPermission (getKey request "op") args = some p ∧
      requestTarget env args = some (objectId, token) ∧
      Authorised env s objectId token [p.name] obj record ∧ p ∈ record.permissions
  /-- Every token on record descends from the one its object was created with. -/
  traced : ∀ h record, (h, record) ∈ s.registry.tokens.items →
    ∃ raw, env.hashToken raw = h ∧
      Descends env (callsOf exchanges) record.objectId raw record.permissions

theorem authorisation_sound (hunique : env.Unique)
    (hrun : Run (Serve env endpoint) .init exchanges s) : Secure env endpoint exchanges s := by
  constructor
  · intro request reply s' name hname hop hhandle
    exact handle_authorised hname hop hhandle
  · exact (served_traced hunique hrun).2

end Requests

/-- A request for eight bytes of shared memory. -/
def createRequest : List (String × Json) :=
  [("op", .leaf (.str "create")), ("args", .dict [("size", .leaf (.int 8))])]

/-- With the first token of the first object, another one is asked for that may only read. -/
def grantRead : List (String × Json) :=
  [("op", .leaf (.str "grant")), ("args", .dict [("object_id", .leaf (.str (letters 'o' 0))),
    ("token", .leaf (.str (letters 't' 4))), ("permissions", .leaf (.str "read"))])]

/-- What comes of a request. -/
def exchangeAt (s : State) (request : List (String × Json)) : Exchange where
  request := request
  call := (actionOf plainEnvironment request).map fun action =>
    ⟨action, outcomeOf (perform plainEnvironment action s)⟩
  outcome := outcomeOf (handle plainEnvironment "" request s)

def served (s : State) (request : List (String × Json)) : State :=
  finalState (handle plainEnvironment "" request s)

def createdState : State := served .init createRequest

def readerState : State := served createdState grantRead

theorem reader_served : Run (Serve plainEnvironment "") .init
    [exchangeAt .init createRequest, exchangeAt createdState grantRead] readerState :=
  (Run.single ⟨rfl, rfl, rfl⟩).snoc ⟨rfl, rfl, rfl⟩

theorem authorisation_sound_reader : Secure plainEnvironment ""
    [exchangeAt .init createRequest, exchangeAt createdState grantRead] readerState :=
  authorisation_sound plainEnvironment_unique reader_served

end Npb.Mstore
