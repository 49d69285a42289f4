import Npb.Foundations.Runs
import Npb.Mstore.Registry

/-! # Calls of the registry

The six calls that can be made of a registry, and everything each of them can do to it
(`perform_effect`): one that raises leaves the registry as it was, and one that returns has passed
its checks and has exactly the effect listed. -/

namespace Npb.Mstore
set_option autoImplicit false
open Effects

/-! ## Computations that only ask -/

/-- The same registry and regions; time has gone on. -/
structure Unchanged (s s' : State) : Prop where
  registry : s'.registry = s.registry
  regions : s'.regions = s.regions
  closed : s'.closed = s.closed
  ticks : s.ticks ≤ s'.ticks

theorem Unchanged.refl (s : State) : Unchanged s s := ⟨rfl, rfl, rfl, Nat.le_refl _⟩

theorem Unchanged.trans {s s' s'' : State} (h : Unchanged s s') (h' : Unchanged s' s'') :
    Unchanged s s'' :=
  ⟨h'.registry.trans h.registry, h'.regions.trans h.regions, h'.closed.trans h.closed,
    h.ticks.trans h'.ticks⟩

/-- Nothing but the time differs. -/
theorem Unchanged.later {s s' : State} (h : Unchanged s s') :
    ∃ t, s.ticks ≤ t ∧ s' = ⟨s.registry, s.regions, s.closed, t⟩ := by
  obtain ⟨registry, regions, closed, ticks⟩ := s'
  obtain ⟨hregistry, hregions, hclosed, hticks⟩ := h
  subst hregistry
  subst hregions
  subst hclosed
  exact ⟨ticks, hticks, rfl⟩

def Quiet {α : Type} (x : Call α) : Prop := ∀ s, Unchanged s (finalState (x s))

section Quiet
variable {α β : Type}

theorem Quiet.unchanged {x : Call α} {s s' : State} {a : α} (hx : Quiet x)
    (h : x s = .ok a s') : Unchanged s s' := by
  have hs := hx s
  rwa [h] at hs

theorem Quiet.unchanged_error {x : Call α} {s s' : State} {e : Failure} (hx : Quiet x)
    (h : x s = .error e s') : Unchanged s s' := by
  have hs := hx s
  rwa [h] at hs

theorem quiet_pure (a : α) : Quiet (pure a) := fun _ => Unchanged.refl _

theorem quiet_fromExcept (x : Except Failure α) : Quiet (fromExcept x) := by
  intro s
  cases x with
  | ok a => exact Unchanged.refl s
  | error e => exact Unchanged.refl s

theorem quiet_raise (e : Failure) : Quiet (raise e : Call α) := quiet_fromExcept _

theorem quiet_get : Quiet get := fun _ => Unchanged.refl _

theorem quiet_ask (answers : ℕ → α) : Quiet (ask answers) :=
  fun _ => ⟨rfl, rfl, rfl, Nat.le_succ _⟩

theorem quiet_bind {x : Call α} {f : α → Call β} (hx : Quiet x) (hf : ∀ a, Quiet (f a)) :
    Quiet (x >>= f) := by
  intro s
  cases h : x s with
  | ok a s' =>
    rw [bind_ok h]
    exact (hx.unchanged h).trans (hf a s')
  | error e s' =>
    rw [bind_error h]
    exact hx.unchanged_error h

end Quiet

/-! ## Computations that change nothing when they raise -/

def Safe {α : Type} (x : Call α) : Prop := ∀ s e s', x s = .error e s' → Unchanged s s'

def Total {α : Type} (x : Call α) : Prop := ∀ s, ∃ a s', x s = .ok a s'

section Safe
variable {α β : Type}

theorem Quiet.safe {x : Call α} (hx : Quiet x) : Safe x := fun _ _ _ h => hx.unchanged_error h

theorem Total.safe {x : Call α} (hx : Total x) : Safe x := by
  intro s e s' h
  obtain ⟨a, s'', hok⟩ := hx s
  rw [hok] at h
  cases h

theorem total_pure (a : α) : Total (pure a) := fun s => ⟨a, s, rfl⟩

theorem total_modify (f : State → State) : Total (modify f : Call PUnit) := fun _ => ⟨_, _, rfl⟩

theorem total_bind {x : Call α} {f : α → Call β} (hx : Total x) (hf : ∀ a, Total (f a)) :
    Total (x >>= f) := by
  intro s
  obtain ⟨a, s', h⟩ := hx s
  obtain ⟨b, s'', h'⟩ := hf a s'
  exact ⟨b, s'', by rw [bind_ok h, h']⟩

theorem safe_bind {x : Call α} {f : α → Call β} (hx : Quiet x) (hf : ∀ a, Safe (f a)) :
    Safe (x >>= f) := by
  intro s e s' h
  cases hrun : x s with
  | ok a s'' =>
    rw [bind_ok hrun] at h
    exact (hx.unchanged hrun).trans (hf a _ _ _ h)
  | error e' s'' =>
    rw [bind_error hrun] at h
    cases h
    exact hx.unchanged_error hrun

theorem safe_map {x : Call α} (hx : Safe x) (f : α → β) : Safe (x >>= fun a => pure (f a)) := by
  intro s e s' h
  cases hrun : x s with
  | ok a s'' =>
    rw [bind_ok hrun] at h
    cases h
  | error e' s'' =>
    rw [bind_error hrun] at h
    cases h
    exact hx _ _ _ hrun

end Safe

theorem ask_run {α : Type} (answers : ℕ → α) (s : State) :
    ask answers s = .ok (answers s.ticks) { s with ticks := s.ticks + 1 } := rfl

section Methods
variable {env : Environment}

/-! ## Validation -/

/-- What `validate` has checked when it returns. -/
structure Authorised (env : Environment) (s : State) (objectId rawToken : String)
    (required : List String) (obj : ObjectRecord) (token : TokenRecord) : Prop where
  raw : rawToken ≠ ""
  registered : s.registry.objects.get? objectId = some obj
  known : s.registry.tokens.get? (env.hashToken rawToken) = some token
  bound : token.objectId = objectId
  live : token.revoked = false
  unexpired : expired (env.time s.ticks) token.expiresAt = false
  generation : token.generation = obj.generation
  holds : ∀ name ∈ required, name ∈ sortedNames token.permissions

theorem validate_ok {s s' : State} {objectId rawToken : String} {required : Json}
    {obj : ObjectRecord} {token : TokenRecord} :
    validate env objectId rawToken required s = .ok (obj, token) s' ↔
      ∃ names, requiredSet env.sortedRepr required = .ok names ∧
        Authorised env s objectId rawToken names obj token ∧
        s' = { s with ticks := s.ticks + 1 } := by
  unfold validate
  rw [raiseIf_run_eq_ok, fromExcept_bind_eq_ok]
  constructor
  · intro h
    obtain ⟨hraw, names, hnames, h⟩ := h
    rw [bind_ok (get_run s)] at h
    cases hobject : s.registry.objects.get? objectId with
    | none =>
      rw [hobject] at h
      cases h
    | some obj' =>
    cases htoken : s.registry.tokens.get? (env.hashToken rawToken) with
    | none =>
      rw [hobject, htoken] at h
      cases h
    | some token' =>
      rw [hobject, htoken] at h
      dsimp only at h
      rw [raiseIf_run_eq_ok, raiseIf_run_eq_ok, bind_ok (ask_run _ s), raiseIf_run_eq_ok,
        raiseIf_run_eq_ok] at h
      obtain ⟨hbound, hlive, hexpired, hgeneration, h⟩ := h
      split at h
      · next hmissing =>
        cases h
        refine ⟨names, hnames, ⟨hraw, hobject, htoken, ?_, ?_, ?_, ?_, ?_⟩, rfl⟩
        · simpa using hbound
        · simpa using hlive
        · simpa using hexpired
        · simpa using hgeneration
        · simpa using hmissing
      · rw [fromExcept_bind_eq_ok] at h
        obtain ⟨text, -, h⟩ := h
        cases h
  · intro h
    obtain ⟨names, hnames, h, rfl⟩ := h
    refine ⟨h.raw, names, hnames, ?_⟩
    rw [bind_ok (get_run s), h.registered, h.known]
    dsimp only
    rw [raiseIf_run_eq_ok, raiseIf_run_eq_ok, bind_ok (ask_run _ s), raiseIf_run_eq_ok,
      raiseIf_run_eq_ok, if_pos (by simpa using h.holds)]
    simp [h.bound, h.live, h.unexpired, h.generation]

theorem validate_quiet (objectId rawToken : String) (required : Json) :
    Quiet (validate env objectId rawToken required) := by
  unfold validate
  refine quiet_bind (quiet_fromExcept _) fun _ => ?_
  refine quiet_bind (quiet_fromExcept _) fun names => ?_
  refine quiet_bind quiet_get fun s => ?_
  split
  · exact quiet_raise _
  · exact quiet_raise _
  · refine quiet_bind (quiet_fromExcept _) fun _ => ?_
    refine quiet_bind (quiet_fromExcept _) fun _ => ?_
    refine quiet_bind (quiet_ask _) fun now => ?_
    refine quiet_bind (quiet_fromExcept _) fun _ => ?_
    refine quiet_bind (quiet_fromExcept _) fun _ => ?_
    dsimp only
    split
    · exact quiet_pure _
    · exact quiet_bind (quiet_fromExcept _) fun _ => quiet_raise _

/-- The last authentication error is about two records that do not fit together. -/
theorem validate_stale {s s' : State} {objectId rawToken : String} {required : Json}
    (h : validate env objectId rawToken required s =
      .error (authenticationError "token belongs to a stale object generation") s') :
    ∃ obj token, s.registry.objects.get? objectId = some obj ∧
      s.registry.tokens.get? (env.hashToken rawToken) = some token ∧
      token.objectId = objectId ∧ token.generation ≠ obj.generation := by
  unfold validate at h
  rw [raiseIf_run_eq_error, fromExcept_bind_eq_error] at h
  obtain ⟨-, hmessage, -⟩ | ⟨-, ⟨hnames, -⟩ | ⟨names, -, h⟩⟩ := h
  · exact absurd hmessage (by simp [authenticationError])
  · exact absurd rfl (requiredSet_error hnames _)
  rw [bind_ok (get_run s)] at h
  cases hobject : s.registry.objects.get? objectId with
  | none =>
    rw [hobject] at h
    cases h
  | some obj =>
  cases htoken : s.registry.tokens.get? (env.hashToken rawToken) with
  | none =>
    rw [hobject, htoken] at h
    exact absurd h (by simp [raise, authenticationError])
  | some token =>
    rw [hobject, htoken] at h
    dsimp only at h
    rw [raiseIf_run_eq_error, raiseIf_run_eq_error, bind_ok (ask_run _ s), raiseIf_run_eq_error,
      raiseIf_run_eq_error] at h
    obtain ⟨-, hmessage, -⟩ | ⟨hbound, ⟨-, hmessage, -⟩ | ⟨-, ⟨-, hmessage, -⟩ |
      ⟨-, ⟨hstale, -⟩ | ⟨-, h⟩⟩⟩⟩ := h
    · exact absurd hmessage (by simp [authenticationError])
    · exact absurd hmessage (by simp [authenticationError])
    · exact absurd hmessage (by simp [authenticationError])
    · exact ⟨obj, token, rfl, rfl, not_not.mp hbound, hstale⟩
    · split at h
      · cases h
      · rw [fromExcept_bind_eq_error] at h
        obtain ⟨hpython, -⟩ | ⟨text, -, h⟩ := h
        · exact absurd rfl (python_error hpython _)
        · exact absurd h (by simp [raise, authenticationError])

theorem validate_permission {s s' : State} {objectId rawToken : String} {p : Permission}
    {obj : ObjectRecord} {token : TokenRecord}
    (h : validate env objectId rawToken (.leaf (.str p.name)) s = .ok (obj, token) s') :
    Authorised env s objectId rawToken [p.name] obj token ∧ p ∈ token.permissions ∧
      s' = { s with ticks := s.ticks + 1 } := by
  obtain ⟨names, hnames, hauthorised, hs⟩ := validate_ok.mp h
  rw [requiredSet_name] at hnames
  cases hnames
  exact ⟨hauthorised, mem_sortedNames.mp (hauthorised.holds _ (List.mem_singleton_self _)), hs⟩

/-! ## Issuing -/

/-- The record of a new token. -/
def newToken (env : Environment) (raw : String) (obj : ObjectRecord)
    (permissions : Finset Permission) (now : ℚ) (expiresAt : Option Instant) : TokenRecord :=
  ⟨env.hashToken raw, obj.objectId, permissions, obj.generation, now, expiresAt, false⟩

theorem issueLocked_run (obj : ObjectRecord) (permissions : Finset Permission)
    (expiresAt : Option Instant) (s : State) :
    issueLocked env obj permissions expiresAt s = .ok (env.tokenUrlsafe s.ticks)
      { s with
        registry := { s.registry with
          tokens := s.registry.tokens.set (env.hashToken (env.tokenUrlsafe s.ticks))
            (newToken env (env.tokenUrlsafe s.ticks) obj permissions (env.time (s.ticks + 1))
              expiresAt) }
        ticks := s.ticks + 2 } := rfl

theorem expiryOf_quiet (expiresIn : Json) (issuer : Option Instant) :
    Quiet (expiryOf env expiresIn issuer) := by
  unfold expiryOf
  split
  · exact quiet_pure _
  · refine quiet_bind (quiet_fromExcept _) fun seconds => ?_
    refine quiet_bind (quiet_fromExcept _) fun _ => ?_
    refine quiet_bind (quiet_ask _) fun now => ?_
    refine quiet_bind (quiet_fromExcept _) fun expiresAt => ?_
    dsimp only
    split
    · exact quiet_pure _
    · exact quiet_pure _

theorem createRegion_quiet (size : ℤ) (objectId : String) :
    Quiet (createRegion env size objectId) := by
  unfold createRegion
  split
  · unfold createWindowsNamed
    refine quiet_bind (quiet_ask _) fun hex => ?_
    refine quiet_bind (quiet_ask _) fun mapped => ?_
    exact quiet_bind (quiet_fromExcept _) fun _ => quiet_pure _
  · unfold createMemfd
    refine quiet_bind (quiet_ask _) fun created => ?_
    refine quiet_bind (quiet_fromExcept _) fun fd => ?_
    refine quiet_bind (quiet_ask _) fun sized => ?_
    exact quiet_bind (quiet_fromExcept _) fun _ => quiet_pure _
  · exact quiet_raise _

theorem createRegion_open {size : ℤ} {objectId : String} {region : Region} {s s' : State}
    (h : createRegion env size objectId s = .ok region s') : region.isOpen = true := by
  unfold createRegion at h
  cases hplatform : env.platform with
  | windows =>
    rw [hplatform] at h
    dsimp only at h
    unfold createWindowsNamed at h
    obtain ⟨hex, _, -, h⟩ := bind_eq_ok.mp h
    obtain ⟨mapped, _, -, h⟩ := bind_eq_ok.mp h
    obtain ⟨_, _, -, h⟩ := bind_eq_ok.mp h
    cases h
    rfl
  | linux =>
    rw [hplatform] at h
    dsimp only at h
    unfold createMemfd at h
    obtain ⟨created, _, -, h⟩ := bind_eq_ok.mp h
    obtain ⟨fd, _, -, h⟩ := bind_eq_ok.mp h
    obtain ⟨sized, _, -, h⟩ := bind_eq_ok.mp h
    obtain ⟨_, _, -, h⟩ := bind_eq_ok.mp h
    cases h
    simp [Region.isOpen]
  | other =>
    rw [hplatform] at h
    cases h

/-! ## Closing regions -/

def closeAll (closed : List ℕ) (regions : List Region) : List Region :=
  closed.foldl (fun regions region => regions.modify region Region.close) regions

theorem closeRegions_run (closed : List ObjectRecord) (s : State) :
    closed.forM (fun obj => closeRegion obj.region) s = .ok ⟨⟩ { s with
      regions := closeAll (closed.map ObjectRecord.region) s.regions
      closed := s.closed ++ closed.map ObjectRecord.region } := by
  induction closed generalizing s with
  | nil => simp [closeAll]
  | cons obj closed ih =>
    have hcons : (obj :: closed).forM (fun obj => closeRegion obj.region) =
        closeRegion obj.region >>= fun _ => closed.forM fun obj => closeRegion obj.region := rfl
    rw [hcons, bind_ok (show closeRegion obj.region s = _ from rfl), ih]
    simp [closeAll]

/-- Whether the region at a place is open. -/
def openAt (regions : List Region) (region : ℕ) : Bool := regions[region]?.any Region.isOpen

theorem openAt_modify (regions : List Region) (i j : ℕ) :
    openAt (regions.modify j Region.close) i = (openAt regions i && i ≠ j) := by
  unfold openAt
  rw [List.getElem?_modify]
  by_cases h : j = i
  · subst h
    cases regions[j]? <;> simp
  · have h' : i ≠ j := fun hij => h hij.symm
    cases regions[i]? <;> simp [h, h']

theorem openAt_closeAll (closed : List ℕ) (regions : List Region) (i : ℕ) :
    openAt (closeAll closed regions) i = (openAt regions i && i ∉ closed) := by
  induction closed generalizing regions with
  | nil => simp [closeAll]
  | cons j closed ih =>
    have hcons : closeAll (j :: closed) regions =
        closeAll closed (regions.modify j Region.close) := rfl
    rw [hcons, ih, openAt_modify]
    simp [Bool.and_assoc]

theorem length_closeAll (closed : List ℕ) (regions : List Region) :
    (closeAll closed regions).length = regions.length := by
  induction closed generalizing regions with
  | nil => rfl
  | cons j closed ih =>
    have hcons : closeAll (j :: closed) regions =
        closeAll closed (regions.modify j Region.close) := rfl
    rw [hcons, ih, List.length_modify]

end Methods

/-! ## Calls and their effects -/

inductive Action where
  | createObject (size : ℤ) (shape dtype order metadata : Json)
  | validate (objectId rawToken : String) (required : Json)
  | issueToken (objectId issuerRaw : String) (permissions expiresIn : Json)
  | revokeToken (objectId issuerRaw targetRaw : String)
  | deleteObject (objectId rawToken : String)
  | close

inductive Answer where
  | created (obj : ObjectRecord) (token : String)
  | validated (obj : ObjectRecord) (token : TokenRecord)
  | issued (token : String)
  | done

section Runs
variable (env : Environment)

def perform : Action → Call Answer
  | .createObject size shape dtype order metadata => do
    let (obj, token) ← createObject env size shape dtype order metadata
    return .created obj token
  | .validate objectId rawToken required => do
    let (obj, token) ← validate env objectId rawToken required
    return .validated obj token
  | .issueToken objectId issuerRaw permissions expiresIn => do
    return .issued (← issueToken env objectId issuerRaw permissions expiresIn)
  | .revokeToken objectId issuerRaw targetRaw => do
    revokeToken env objectId issuerRaw targetRaw
    return .done
  | .deleteObject objectId rawToken => do
    deleteObject env objectId rawToken
    return .done
  | .close => do
    close
    return .done

/-- A call that was made, with what it returned or raised. -/
structure Event where
  action : Action
  outcome : Except Failure Answer

def Step (s : State) (e : Event) (s' : State) : Prop :=
  perform env e.action s = match e.outcome with
    | .ok answer => .ok answer s'
    | .error failure => .error failure s'

/-- The history of a registry: what was called, one call after the other. -/
abbrev History (events : List Event) (s : State) : Prop := Run (Step env) .init events s

/-- What a call can do to the registry. -/
inductive Effect (s : State) : Event → State → Prop
  | failed {action : Action} {failure : Failure} {s' : State} (hsame : Unchanged s s') :
    Effect s ⟨action, .error failure⟩ s'
  | created {size : ℤ} {shape dtype order metadata : Json} (n m t : ℕ) (obj : ObjectRecord)
    (region : Region) (now : ℚ) (hsize : 0 < size) (hn : s.ticks ≤ n) (hm : n < m) (ht : m < t)
    (hid : obj.objectId = env.uuid4 n) (hregion : obj.region = s.regions.length)
    (hopen : region.isOpen = true) :
    Effect s ⟨.createObject size shape dtype order metadata,
        .ok (.created obj (env.tokenUrlsafe m))⟩
      ⟨⟨s.registry.objects.set obj.objectId obj,
        s.registry.tokens.set (env.hashToken (env.tokenUrlsafe m))
          (newToken env (env.tokenUrlsafe m) obj allPermissions now none)⟩,
        s.regions ++ [region], s.closed, t⟩
  | validated {objectId rawToken : String} {required : Json} (names : List String)
    (obj : ObjectRecord) (token : TokenRecord)
    (hnames : requiredSet env.sortedRepr required = .ok names)
    (h : Authorised env s objectId rawToken names obj token) :
    Effect s ⟨.validate objectId rawToken required, .ok (.validated obj token)⟩
      { s with ticks := s.ticks + 1 }
  | issued {objectId issuerRaw : String} {permissions expiresIn : Json}
    (requested : Finset Permission) (obj : ObjectRecord) (issuer : TokenRecord)
    (expiresAt : Option Instant) (s₁ : State)
    (hrequested : normalizePermissions env.sortedRepr permissions = .ok requested)
    (h : Authorised env s objectId issuerRaw ["grant"] obj issuer)
    (hgrant : .grant ∈ issuer.permissions) (hsubset : requested ⊆ issuer.permissions)
    (hexpiry : expiryOf env expiresIn issuer.expiresAt { s with ticks := s.ticks + 1 } =
      .ok expiresAt s₁)
    (hs₁ : Unchanged s s₁) :
    Effect s ⟨.issueToken objectId issuerRaw permissions expiresIn,
        .ok (.issued (env.tokenUrlsafe s₁.ticks))⟩
      ⟨{ s.registry with
          tokens := s.registry.tokens.set (env.hashToken (env.tokenUrlsafe s₁.ticks))
            (newToken env (env.tokenUrlsafe s₁.ticks) obj requested (env.time (s₁.ticks + 1))
              expiresAt) },
        s.regions, s.closed, s₁.ticks + 2⟩
  | revoked {objectId issuerRaw targetRaw : String} (obj : ObjectRecord)
    (issuer target : TokenRecord) (h : Authorised env s objectId issuerRaw ["grant"] obj issuer)
    (hgrant : .grant ∈ issuer.permissions)
    (htarget : s.registry.tokens.get? (env.hashToken targetRaw) = some target)
    (hbound : target.objectId = objectId)
    (hself : ¬ (target.permissions = allPermissions ∧ targetRaw = issuerRaw)) :
    Effect s ⟨.revokeToken objectId issuerRaw targetRaw, .ok .done⟩
      ⟨{ s.registry with
          tokens := s.registry.tokens.set (env.hashToken targetRaw)
            { target with revoked := true } },
        s.regions, s.closed, s.ticks + 1⟩
  | deleted {objectId rawToken : String} (obj : ObjectRecord) (token : TokenRecord)
    (h : Authorised env s objectId rawToken ["delete"] obj token)
    (hdelete : .delete ∈ token.permissions) :
    Effect s ⟨.deleteObject objectId rawToken, .ok .done⟩
      ⟨⟨s.registry.objects.pop objectId,
        s.registry.tokens.filter fun e => e.2.objectId ≠ objectId⟩,
        closeAll [obj.region] s.regions, s.closed ++ [obj.region], s.ticks + 1⟩
  | closed :
    Effect s ⟨.close, .ok .done⟩
      ⟨⟨.empty, .empty⟩,
        closeAll (s.registry.objects.values.map ObjectRecord.region) s.regions,
        s.closed ++ s.registry.objects.values.map ObjectRecord.region, s.ticks⟩

variable {env}

theorem total_issueLocked (obj : ObjectRecord) (permissions : Finset Permission)
    (expiresAt : Option Instant) : Total (issueLocked env obj permissions expiresAt) :=
  fun s => ⟨_, _, issueLocked_run obj permissions expiresAt s⟩

theorem createObject_safe (size : ℤ) (shape dtype order metadata : Json) :
    Safe (createObject env size shape dtype order metadata) := by
  unfold createObject
  refine safe_bind (quiet_fromExcept _) fun _ => ?_
  refine safe_bind (quiet_ask _) fun objectId => ?_
  refine safe_bind (createRegion_quiet size objectId) fun region => ?_
  refine safe_bind (quiet_ask _) fun now => ?_
  refine safe_bind quiet_get fun s => ?_
  apply Total.safe
  refine total_bind (fun _ => ⟨_, _, rfl⟩) fun _ => ?_
  exact total_bind (total_issueLocked _ _ _) fun token => total_pure _

theorem issueToken_safe (objectId issuerRaw : String) (permissions expiresIn : Json) :
    Safe (issueToken env objectId issuerRaw permissions expiresIn) := by
  unfold issueToken
  refine safe_bind (quiet_fromExcept _) fun requested => ?_
  refine safe_bind (validate_quiet objectId issuerRaw _) fun authorised => ?_
  refine safe_bind (quiet_fromExcept _) fun _ => ?_
  refine safe_bind (expiryOf_quiet expiresIn _) fun expiresAt => ?_
  exact (total_issueLocked _ _ _).safe

theorem revokeToken_safe (objectId issuerRaw targetRaw : String) :
    Safe (revokeToken env objectId issuerRaw targetRaw) := by
  unfold revokeToken
  refine safe_bind (validate_quiet objectId issuerRaw _) fun authorised => ?_
  refine safe_bind quiet_get fun s => ?_
  cases s.registry.tokens.get? (env.hashToken targetRaw) with
  | none => exact (quiet_raise _).safe
  | some target =>
    refine safe_bind (quiet_fromExcept _) fun _ => ?_
    refine safe_bind (quiet_fromExcept _) fun _ => ?_
    exact Total.safe fun _ => ⟨_, _, rfl⟩

theorem deleteObject_safe (objectId rawToken : String) :
    Safe (deleteObject env objectId rawToken) := by
  unfold deleteObject
  refine safe_bind (validate_quiet objectId rawToken _) fun authorised => ?_
  apply Total.safe
  exact total_bind (total_modify _) fun _ => total_modify _

theorem close_total : Total close := by
  unfold close
  refine total_bind (fun s => ⟨s, s, rfl⟩) fun s => ?_
  refine total_bind (fun _ => ⟨_, _, rfl⟩) fun _ => ?_
  exact fun s' => ⟨_, _, closeRegions_run _ s'⟩

/-- A call that raises leaves the registry as it was. -/
theorem perform_safe (action : Action) : Safe (perform env action) := by
  cases action with
  | createObject size shape dtype order metadata =>
    exact safe_map (createObject_safe size shape dtype order metadata)
      fun r => Answer.created r.1 r.2
  | validate objectId rawToken required =>
    exact safe_map (validate_quiet objectId rawToken required).safe
      fun r => Answer.validated r.1 r.2
  | issueToken objectId issuerRaw permissions expiresIn =>
    exact safe_map (issueToken_safe objectId issuerRaw permissions expiresIn) Answer.issued
  | revokeToken objectId issuerRaw targetRaw =>
    exact safe_map (revokeToken_safe objectId issuerRaw targetRaw) fun _ => Answer.done
  | deleteObject objectId rawToken =>
    exact safe_map (deleteObject_safe objectId rawToken) fun _ => Answer.done
  | close => exact safe_map close_total.safe fun _ => Answer.done

/-! ### Calls that return -/

theorem createObject_ok {size : ℤ} {shape dtype order metadata : Json} {s s' : State}
    {obj : ObjectRecord} {token : String}
    (h : createObject env size shape dtype order metadata s = .ok (obj, token) s') :
    Effect env s ⟨.createObject size shape dtype order metadata, .ok (.created obj token)⟩ s' := by
  unfold createObject at h
  rw [raiseIf_run_eq_ok, bind_ok (ask_run _ s), bind_eq_ok] at h
  obtain ⟨hsize, region, s₁, hregion, h⟩ := h
  rw [bind_ok (ask_run _ s₁), bind_ok (get_run _)] at h
  obtain ⟨t, ht, rfl⟩ := ((createRegion_quiet size _).unchanged hregion).later
  cases h
  exact .created s.ticks (t + 1) (t + 3) _ region (env.time (t + 2)) (by simpa using hsize)
    (Nat.le_refl _) (Nat.lt_succ_of_lt ht) (by omega) rfl rfl (createRegion_open hregion)

theorem issueToken_ok {objectId issuerRaw : String} {permissions expiresIn : Json} {s s' : State}
    {token : String}
    (h : issueToken env objectId issuerRaw permissions expiresIn s = .ok token s') :
    Effect env s ⟨.issueToken objectId issuerRaw permissions expiresIn, .ok (.issued token)⟩
      s' := by
  unfold issueToken at h
  rw [fromExcept_bind_eq_ok] at h
  obtain ⟨requested, hrequested, h⟩ := h
  rw [bind_eq_ok] at h
  obtain ⟨⟨obj, issuer⟩, s₁, hvalidate, h⟩ := h
  obtain ⟨hauthorised, hgrant, rfl⟩ := validate_permission (p := .grant) hvalidate
  rw [raiseIf_run_eq_ok, bind_eq_ok] at h
  obtain ⟨hsubset, expiresAt, s₂, hexpiry, h⟩ := h
  have hsame := (expiryOf_quiet expiresIn issuer.expiresAt).unchanged hexpiry
  obtain ⟨t, ht, rfl⟩ := hsame.later
  cases h
  exact .issued requested obj issuer expiresAt ⟨s.registry, s.regions, s.closed, t⟩ hrequested
    hauthorised hgrant (not_not.mp hsubset) hexpiry
    ⟨rfl, rfl, rfl, (Nat.le_succ _).trans ht⟩

theorem revokeToken_ok {objectId issuerRaw targetRaw : String} {s s' : State}
    (h : revokeToken env objectId issuerRaw targetRaw s = .ok () s') :
    Effect env s ⟨.revokeToken objectId issuerRaw targetRaw, .ok .done⟩ s' := by
  unfold revokeToken at h
  rw [bind_eq_ok] at h
  obtain ⟨⟨obj, issuer⟩, s₁, hvalidate, h⟩ := h
  obtain ⟨hauthorised, hgrant, rfl⟩ := validate_permission (p := .grant) hvalidate
  rw [bind_ok (get_run _)] at h
  cases htarget : s.registry.tokens.get? (env.hashToken targetRaw) with
  | none =>
    dsimp only at h
    rw [htarget] at h
    cases h
  | some target =>
    dsimp only at h
    rw [htarget] at h
    dsimp only at h
    rw [raiseIf_run_eq_ok, raiseIf_run_eq_ok] at h
    obtain ⟨hbound, hself, h⟩ := h
    cases h
    exact .revoked obj issuer target hauthorised hgrant htarget (not_not.mp hbound) hself

theorem deleteObject_ok {objectId rawToken : String} {s s' : State}
    (h : deleteObject env objectId rawToken s = .ok () s') :
    Effect env s ⟨.deleteObject objectId rawToken, .ok .done⟩ s' := by
  unfold deleteObject at h
  rw [bind_eq_ok] at h
  obtain ⟨⟨obj, token⟩, s₁, hvalidate, h⟩ := h
  obtain ⟨hauthorised, hdelete, rfl⟩ := validate_permission (p := .delete) hvalidate
  cases h
  exact .deleted obj token hauthorised hdelete

theorem close_run (s : State) :
    close s = .ok () ⟨⟨.empty, .empty⟩,
      closeAll (s.registry.objects.values.map ObjectRecord.region) s.regions,
      s.closed ++ s.registry.objects.values.map ObjectRecord.region, s.ticks⟩ := by
  unfold close
  rw [bind_ok (get_run s)]
  exact closeRegions_run s.registry.objects.values
    ⟨⟨.empty, .empty⟩, s.regions, s.closed, s.ticks⟩

theorem perform_effect {s s' : State} {e : Event} (h : Step env s e s') : Effect env s e s' := by
  obtain ⟨action, outcome⟩ := e
  cases outcome with
  | error failure => exact .failed (perform_safe action _ _ _ h)
  | ok answer =>
    have h : perform env action s = .ok answer s' := h
    cases action with
    | createObject size shape dtype order metadata =>
      obtain ⟨⟨obj, token⟩, s₁, hrun, h⟩ := bind_eq_ok.mp h
      cases h
      exact createObject_ok hrun
    | validate objectId rawToken required =>
      obtain ⟨⟨obj, token⟩, s₁, hrun, h⟩ := bind_eq_ok.mp h
      cases h
      obtain ⟨names, hnames, hauthorised, rfl⟩ := validate_ok.mp hrun
      exact .validated names obj token hnames hauthorised
    | issueToken objectId issuerRaw permissions expiresIn =>
      obtain ⟨token, s₁, hrun, h⟩ := bind_eq_ok.mp h
      cases h
      exact issueToken_ok hrun
    | revokeToken objectId issuerRaw targetRaw =>
      obtain ⟨⟨⟩, s₁, hrun, h⟩ := bind_eq_ok.mp h
      cases h
      exact revokeToken_ok hrun
    | deleteObject objectId rawToken =>
      obtain ⟨⟨⟩, s₁, hrun, h⟩ := bind_eq_ok.mp h
      cases h
      exact deleteObject_ok hrun
    | close =>
      obtain ⟨⟨⟩, s₁, hrun, h⟩ := bind_eq_ok.mp h
      cases h
      rw [close_run] at hrun
      cases hrun
      exact .closed

theorem Effect.ticks {s s' : State} {e : Event} (h : Effect env s e s') : s.ticks ≤ s'.ticks := by
  cases h with
  | failed hsame => exact hsame.ticks
  | created n m t obj region now hsize hn hm ht =>
    show s.ticks ≤ t
    omega
  | validated => exact Nat.le_succ _
  | issued requested obj issuer expiresAt s₁ hrequested h hgrant hsubset hexpiry hs₁ =>
    exact hs₁.ticks.trans (Nat.le_add_right _ _)
  | revoked => exact Nat.le_succ _
  | deleted => exact Nat.le_succ _
  | closed => exact Nat.le_refl _

theorem issueToken_run {objectId issuerRaw : String} {permissions expiresIn : Json}
    {requested : Finset Permission} {obj : ObjectRecord} {issuer : TokenRecord}
    {expiresAt : Option Instant} {s s₁ : State}
    (hrequested : normalizePermissions env.sortedRepr permissions = .ok requested)
    (h : Authorised env s objectId issuerRaw ["grant"] obj issuer)
    (hsubset : requested ⊆ issuer.permissions)
    (hexpiry : expiryOf env expiresIn issuer.expiresAt { s with ticks := s.ticks + 1 } =
      .ok expiresAt s₁) :
    perform env (.issueToken objectId issuerRaw permissions expiresIn) s =
      .ok (.issued (env.tokenUrlsafe s₁.ticks))
        { s₁ with
          registry := { s₁.registry with
            tokens := s₁.registry.tokens.set (env.hashToken (env.tokenUrlsafe s₁.ticks))
              (newToken env (env.tokenUrlsafe s₁.ticks) obj requested (env.time (s₁.ticks + 1))
                expiresAt) }
          ticks := s₁.ticks + 2 } := by
  have hvalidate : validate env objectId issuerRaw (.leaf (.str "grant")) s =
      .ok (obj, issuer) { s with ticks := s.ticks + 1 } :=
    validate_ok.mpr ⟨["grant"], requiredSet_name .grant, h, rfl⟩
  have hissue : issueToken env objectId issuerRaw permissions expiresIn s =
      issueLocked env obj requested expiresAt s₁ := by
    unfold issueToken
    rw [fromExcept_of_ok hrequested, pure_bind, bind_ok hvalidate]
    dsimp only
    rw [fromExcept_raiseIf (not_not.mpr hsubset), pure_bind, bind_ok hexpiry]
  rw [issueLocked_run] at hissue
  exact bind_ok hissue _

theorem revokeToken_run {objectId issuerRaw targetRaw : String} {obj : ObjectRecord}
    {issuer target : TokenRecord} {s : State}
    (h : Authorised env s objectId issuerRaw ["grant"] obj issuer)
    (htarget : s.registry.tokens.get? (env.hashToken targetRaw) = some target)
    (hbound : target.objectId = objectId)
    (hself : ¬ (target.permissions = allPermissions ∧ targetRaw = issuerRaw)) :
    perform env (.revokeToken objectId issuerRaw targetRaw) s = .ok .done
      { s with
        registry := { s.registry with
          tokens := s.registry.tokens.set (env.hashToken targetRaw)
            { target with revoked := true } }
        ticks := s.ticks + 1 } := by
  have hvalidate : validate env objectId issuerRaw (.leaf (.str "grant")) s =
      .ok (obj, issuer) { s with ticks := s.ticks + 1 } :=
    validate_ok.mpr ⟨["grant"], requiredSet_name .grant, h, rfl⟩
  have hrevoke : revokeToken env objectId issuerRaw targetRaw s = .ok () { s with
      registry := { s.registry with
        tokens := s.registry.tokens.set (env.hashToken targetRaw) { target with revoked := true } }
      ticks := s.ticks + 1 } := by
    unfold revokeToken
    rw [bind_ok hvalidate, bind_ok (get_run _)]
    dsimp only
    rw [htarget]
    dsimp only
    rw [fromExcept_raiseIf (not_not.mpr hbound), pure_bind, fromExcept_raiseIf hself, pure_bind]
    rfl
  exact bind_ok hrevoke _

/-- Where the tokens on record after a call come from. A token is only ever marked as revoked. -/
inductive Origin (env : Environment) (s : State) (e : Event) (s' : State) (k : String)
    (t : TokenRecord) : Prop
  | kept (t₀ : TokenRecord) (hbefore : s.registry.tokens.get? k = some t₀)
    (hsame : t = { t₀ with revoked := t.revoked })
  | root (n : ℕ) (obj : ObjectRecord) (now : ℚ) (hn : s.ticks ≤ n) (hlt : n < s'.ticks)
    (hk : k = env.hashToken (env.tokenUrlsafe n))
    (ht : t = newToken env (env.tokenUrlsafe n) obj allPermissions now none)
    (hcall : ∃ action, e = ⟨action, .ok (.created obj (env.tokenUrlsafe n))⟩)
  | issued (n : ℕ) (objectId issuerRaw : String) (permissions expiresIn : Json)
    (requested : Finset Permission) (obj : ObjectRecord) (issuer : TokenRecord)
    (expiresAt : Option Instant) (now : ℚ) (s₁ : State) (hn : s.ticks ≤ n) (hlt : n < s'.ticks)
    (hk : k = env.hashToken (env.tokenUrlsafe n))
    (ht : t = newToken env (env.tokenUrlsafe n) obj requested now expiresAt)
    (hcall : e = ⟨.issueToken objectId issuerRaw permissions expiresIn,
      .ok (.issued (env.tokenUrlsafe n))⟩)
    (h : Authorised env s objectId issuerRaw ["grant"] obj issuer)
    (hexpiry : expiryOf env expiresIn issuer.expiresAt { s with ticks := s.ticks + 1 } =
      .ok expiresAt s₁)

theorem Effect.origin {s s' : State} {e : Event} (h : Effect env s e s') {k : String}
    {t : TokenRecord} (ht : s'.registry.tokens.get? k = some t) : Origin env s e s' k t := by
  cases h with
  | failed hsame =>
    rw [hsame.registry] at ht
    exact .kept t ht rfl
  | created n m tick obj region now hsize hn hm hlt =>
    rw [Dict.get?_set] at ht
    by_cases hk : k = env.hashToken (env.tokenUrlsafe m)
    · rw [if_pos hk] at ht
      cases ht
      exact .root m obj now (hn.trans (Nat.le_of_lt hm)) hlt hk rfl ⟨_, rfl⟩
    · rw [if_neg hk] at ht
      exact .kept t ht rfl
  | validated => exact .kept t ht rfl
  | issued requested obj issuer expiresAt s₁ hrequested h hgrant hsubset hexpiry hs₁ =>
    rw [Dict.get?_set] at ht
    by_cases hk : k = env.hashToken (env.tokenUrlsafe s₁.ticks)
    · rw [if_pos hk] at ht
      cases ht
      exact .issued s₁.ticks _ _ _ _ requested obj issuer expiresAt _ s₁ hs₁.ticks
        (Nat.lt_add_of_pos_right (by decide)) hk rfl rfl h hexpiry
    · rw [if_neg hk] at ht
      exact .kept t ht rfl
  | @revoked objectId issuerRaw targetRaw obj issuer target h hgrant htarget =>
    rw [Dict.get?_set] at ht
    by_cases hk : k = env.hashToken targetRaw
    · rw [if_pos hk] at ht
      cases ht
      exact .kept target (hk ▸ htarget) rfl
    · rw [if_neg hk] at ht
      exact .kept t ht rfl
  | deleted =>
    have hmem := Dict.get?_eq_some.mp ht
    exact .kept t (Dict.get?_eq_some.mpr (Dict.mem_filter.mp hmem).1) rfl
  | closed => cases ht

end Runs
end Npb.Mstore
