import Npb.Mstore.Integrity

/-! # Expiry along delegations

A delegated token is refused from the expiry of its issuer on, and of everyone before it in the
chain (`delegation_bounded`), as long as nobody passes a NaN for `expires_in`: the comparison that
should bound the new expiry is then false, and the token never expires. -/

namespace Npb.Mstore
set_option autoImplicit false
open Effects

/-! ## One delegation -/

/-- Some clock reading reaches this expiry. -/
def Reached (limit : Instant) : Prop := ∃ now : ℚ, limit.le (.finite now) = true

/-- Expired whenever `limit` has passed. -/
def Below (expiresAt : Option Instant) (limit : Instant) : Prop :=
  ∀ now : ℚ, limit.le (.finite now) = true → expired now expiresAt = true

/-- `expires_in` is a NaN. -/
def IsNan (expiresIn : Json) : Prop := numberOf expiresIn = .ok (.float .nan)

section Instants

theorem instantOf_eq_nan {x : PyFloat} : instantOf x = .nan ↔ x = .nan := by
  cases x <;> simp [instantOf]

theorem toFloat_eq_nan {seconds : Number} (h : seconds.toFloat = .ok .nan) :
    seconds = .float .nan := by
  cases seconds with
  | int i =>
    unfold Number.toFloat at h
    dsimp only at h
    split at h <;> cases h
  | float x =>
    have hx := instantOf_eq_nan.mp (Except.ok.inj h)
    rw [hx]

theorem after_eq_nan {now : ℚ} {seconds : Instant} :
    Instant.after now seconds = .nan ↔ seconds = .nan := by
  cases seconds <;> simp [Instant.after]

theorem min_le {a limit : Instant} {now : ℚ} (ha : a ≠ .nan)
    (h : limit.le (.finite now) = true) : (a.min limit).le (.finite now) = true := by
  unfold Instant.min
  by_cases hlt : limit.lt a = true
  · rwa [if_pos hlt]
  · rw [if_neg hlt]
    cases a with
    | nan => exact absurd rfl ha
    | inf negative =>
      cases limit with
      | nan => cases h
      | inf negative' => cases negative <;> cases negative' <;> simp_all [Instant.lt, Instant.le]
      | finite q => cases negative <;> simp_all [Instant.lt, Instant.le]
    | finite p =>
      cases limit with
      | nan => cases h
      | inf negative' => cases negative' <;> simp_all [Instant.lt, Instant.le]
      | finite q =>
        simp only [Instant.lt, Instant.le, decide_eq_true_eq, Bool.or_eq_true, Bool.and_eq_true,
          Instant.finite.injEq] at *
        obtain h | h := h
        · exact .inl ((not_lt.mp hlt).trans_lt h)
        · obtain hp | hp := (not_lt.mp hlt).lt_or_eq
          · exact .inl (h.1 ▸ hp)
          · exact .inr ⟨hp.trans h.1, by simp⟩

end Instants

section Delegation
variable {env : Environment} {expiresIn : Json} {limit : Instant} {expiresAt : Option Instant}
  {s s' : State}

theorem expiryOf_ok (h : expiryOf env expiresIn (some limit) s = .ok expiresAt s') :
    (¬ IsNan expiresIn ∧ expiresAt = some limit) ∨
      ∃ seconds now v, numberOf expiresIn = .ok seconds ∧ seconds.toFloat = .ok v ∧
        expiresAt = some ((Instant.after now v).min limit) := by
  unfold expiryOf at h
  split at h
  · cases h
    refine .inl ⟨?_, rfl⟩
    intro hnan
    cases hnan
  · rw [fromExcept_bind_eq_ok] at h
    obtain ⟨seconds, hseconds, h⟩ := h
    rw [raiseIf_run_eq_ok, bind_ok (ask_run _ s), fromExcept_bind_eq_ok] at h
    obtain ⟨-, v, hv, h⟩ := h
    cases h
    exact .inr ⟨seconds, env.time s.ticks, v, python_eq_ok.mp hseconds, python_eq_ok.mp hv, rfl⟩

/-- One delegation keeps within the expiry of its issuer if and only if that expiry is never
reached or `expires_in` is not a NaN. -/
theorem expiryOf_below_iff (h : expiryOf env expiresIn (some limit) s = .ok expiresAt s') :
    Below expiresAt limit ↔ ¬ (IsNan expiresIn ∧ Reached limit) := by
  obtain ⟨hnan, rfl⟩ | ⟨seconds, now₀, v, hseconds, hv, rfl⟩ := expiryOf_ok h
  · constructor
    · exact fun _ hbad => hnan hbad.1
    · exact fun _ now hnow => hnow
  · by_cases hnan : seconds = .float .nan
    · subst hnan
      cases hv
      constructor
      · intro hbelow hbad
        obtain ⟨now, hnow⟩ := hbad.2
        have hexpired := hbelow now hnow
        have hmin : (Instant.after now₀ (instantOf .nan)).min limit = .nan := by
          cases limit <;> rfl
        rw [hmin] at hexpired
        cases hexpired
      · intro hnever now hnow
        exact absurd ⟨hseconds, now, hnow⟩ hnever
    · have hv' : Instant.after now₀ v ≠ .nan := by
        intro hnone
        rw [after_eq_nan] at hnone
        subst hnone
        exact hnan (toFloat_eq_nan hv)
      constructor
      · intro _ hbad
        have hsame := hseconds.symm.trans hbad.1
        cases hsame
        exact hnan rfl
      · exact fun _ now hnow => min_le hv' hnow

end Delegation

/-! ## Chains of delegations -/

/-- The token `raw` comes from `ancestor` by one grant or more. -/
inductive Delegated (events : List Event) (ancestor : String) : String → Prop
  | direct {objectId raw : String} {permissions expiresIn : Json}
    (hcall : ⟨.issueToken objectId ancestor permissions expiresIn, .ok (.issued raw)⟩ ∈ events) :
    Delegated events ancestor raw
  | chain {objectId issuerRaw raw : String} {permissions expiresIn : Json}
    (h : Delegated events ancestor issuerRaw)
    (hcall : ⟨.issueToken objectId issuerRaw permissions expiresIn, .ok (.issued raw)⟩ ∈ events) :
    Delegated events ancestor raw

/-- The token has been on record with this expiry. -/
def HadExpiry (env : Environment) (events : List Event) (raw : String) (limit : Instant) : Prop :=
  ∃ before s₀ t, before <+: events ∧ History env before s₀ ∧
    s₀.registry.tokens.get? (env.hashToken raw) = some t ∧ t.expiresAt = some limit

/-- No token is accepted once one before it in its chain has expired. -/
def NeverOutlives (env : Environment) (events : List Event) (s : State) : Prop :=
  ∀ ancestor raw limit, Delegated events ancestor raw → HadExpiry env events ancestor limit →
    limit.le (.finite (env.time s.ticks)) = true →
    ∀ objectId required r s', validate env objectId raw required s ≠ .ok r s'

/-- A grant that returns does not pass a NaN while the expiry of its issuer can be reached. -/
def Bounding (env : Environment) (s : State) (e : Event) : Prop :=
  ∀ objectId issuerRaw permissions expiresIn raw issuer limit,
    e = ⟨.issueToken objectId issuerRaw permissions expiresIn, .ok (.issued raw)⟩ →
    s.registry.tokens.get? (env.hashToken issuerRaw) = some issuer →
    issuer.expiresAt = some limit → Reached limit → ¬ IsNan expiresIn

def BoundedStep (env : Environment) (s : State) (e : Event) (s' : State) : Prop :=
  Step env s e s' ∧ Bounding env s e

/-- What the calls so far say about the tokens drawn so far. -/
structure Chains (env : Environment) (events : List Event) (s : State) : Prop where
  links : ∀ objectId issuerRaw permissions expiresIn raw,
    ⟨.issueToken objectId issuerRaw permissions expiresIn, .ok (.issued raw)⟩ ∈ events →
    ∃ m n, m < n ∧ n < s.ticks ∧ issuerRaw = env.tokenUrlsafe m ∧ raw = env.tokenUrlsafe n
  expiries : ∀ raw limit, HadExpiry env events raw limit →
    (∃ n < s.ticks, raw = env.tokenUrlsafe n) ∧
    ∀ t, s.registry.tokens.get? (env.hashToken raw) = some t → t.expiresAt = some limit
  below : ∀ ancestor raw limit t, Delegated events ancestor raw →
    HadExpiry env events ancestor limit →
    s.registry.tokens.get? (env.hashToken raw) = some t → Below t.expiresAt limit

section Steps
variable {env : Environment} {events : List Event} {e : Event} {s s' : State} {raw : String}

theorem Records.drawn_raw (h : Records env s) (hunique : env.Unique) {t : TokenRecord}
    (ht : s.registry.tokens.get? (env.hashToken raw) = some t) :
    ∃ n < s.ticks, raw = env.tokenUrlsafe n := by
  obtain ⟨n, hn, hhash⟩ := h.drawn _ t (Dict.get?_eq_some.mp ht)
  exact ⟨n, hn, hunique.hash hhash⟩

theorem HadExpiry.snoc {limit : Instant} (hrun : History env (events ++ [e]) s')
    (h : HadExpiry env (events ++ [e]) raw limit) :
    HadExpiry env events raw limit ∨
      ∃ t, s'.registry.tokens.get? (env.hashToken raw) = some t ∧ t.expiresAt = some limit := by
  obtain ⟨before, s₀, t, hpre, hbefore, ht, hexpiry⟩ := h
  obtain heq | hpre := List.prefix_concat_iff.mp hpre
  · subst heq
    cases hbefore.functional step_functional hrun
    exact .inr ⟨t, ht, hexpiry⟩
  · exact .inl ⟨before, s₀, t, hpre, hbefore, ht, hexpiry⟩

theorem issued_fresh (heffect : Effect env s e s') {objectId issuerRaw : String}
    {permissions expiresIn : Json}
    (he : e = ⟨.issueToken objectId issuerRaw permissions expiresIn, .ok (.issued raw)⟩) :
    ∃ n, s.ticks ≤ n ∧ n < s'.ticks ∧ raw = env.tokenUrlsafe n ∧
      ∃ obj issuer, Authorised env s objectId issuerRaw ["grant"] obj issuer := by
  subst he
  cases heffect with
  | issued requested obj issuer expiresAt s₁ hrequested hauthorised hgrant hsubset hexpiry hs₁ =>
    exact ⟨s₁.ticks, hs₁.ticks, Nat.lt_add_of_pos_right (by decide), rfl, obj, issuer, hauthorised⟩

/-- The chain of a token that is known does not use the last call. -/
theorem Delegated.earlier (hchains : Chains env events s) (hunique : env.Unique)
    (heffect : Effect env s e s') {ancestor : String} (h : Delegated (events ++ [e]) ancestor raw)
    (hknown : ∃ n < s.ticks, raw = env.tokenUrlsafe n) :
    Delegated events ancestor raw ∧ ∃ m < s.ticks, ancestor = env.tokenUrlsafe m := by
  have hcall : ∀ {objectId issuerRaw raw permissions expiresIn},
      (⟨.issueToken objectId issuerRaw permissions expiresIn, .ok (.issued raw)⟩ : Event) ∈
        events ++ [e] → (∃ n < s.ticks, raw = env.tokenUrlsafe n) →
      ⟨.issueToken objectId issuerRaw permissions expiresIn, .ok (.issued raw)⟩ ∈ events := by
    intro objectId issuerRaw raw permissions expiresIn hmem hknown
    obtain hmem | hmem := List.mem_append.mp hmem
    · exact hmem
    · obtain ⟨m, hm, hraw⟩ := hknown
      obtain ⟨n, hn, -, hraw', -⟩ := issued_fresh heffect (List.mem_singleton.mp hmem).symm
      have hmn := hunique.token (hraw.symm.trans hraw')
      omega
  induction h with
  | direct hmem =>
    have hmem := hcall hmem hknown
    obtain ⟨m, n, hm, hn, hancestor, -⟩ := hchains.links _ _ _ _ _ hmem
    exact ⟨.direct hmem, m, hm.trans hn, hancestor⟩
  | chain _ hmem ih =>
    have hmem := hcall hmem hknown
    obtain ⟨m, n, hm, hn, hissuer, -⟩ := hchains.links _ _ _ _ _ hmem
    obtain ⟨hdelegated, hancestor⟩ := ih ⟨m, hm.trans hn, hissuer⟩
    exact ⟨.chain hdelegated hmem, hancestor⟩

/-- The chain of a new token is that of its issuer, and the issuer. -/
theorem Delegated.last (hchains : Chains env events s) (hunique : env.Unique)
    {ancestor : String} (h : Delegated (events ++ [e]) ancestor raw)
    {n : ℕ} (hn : s.ticks ≤ n) (hraw : raw = env.tokenUrlsafe n) :
    ∃ objectId issuerRaw permissions expiresIn,
      e = ⟨.issueToken objectId issuerRaw permissions expiresIn, .ok (.issued raw)⟩ ∧
      (ancestor = issuerRaw ∨ Delegated (events ++ [e]) ancestor issuerRaw) := by
  have hcall : ∀ {objectId issuerRaw permissions expiresIn},
      (⟨.issueToken objectId issuerRaw permissions expiresIn, .ok (.issued raw)⟩ : Event) ∈
        events ++ [e] →
      e = ⟨.issueToken objectId issuerRaw permissions expiresIn, .ok (.issued raw)⟩ := by
    intro objectId issuerRaw permissions expiresIn hmem
    obtain hmem | hmem := List.mem_append.mp hmem
    · obtain ⟨m, n', hm, hn', -, hraw'⟩ := hchains.links _ _ _ _ _ hmem
      have hnn := hunique.token (hraw.symm.trans hraw')
      omega
    · exact (List.mem_singleton.mp hmem).symm
  cases h with
  | direct hmem => exact ⟨_, _, _, _, hcall hmem, .inl rfl⟩
  | chain hdelegated hmem => exact ⟨_, _, _, _, hcall hmem, .inr hdelegated⟩

theorem Chains.step (hchains : Chains env events s) (hrecords : Records env s)
    (hrecords' : Records env s') (hunique : env.Unique) (hrun : History env events s)
    (hstep : BoundedStep env s e s') : Chains env (events ++ [e]) s' := by
  have heffect := perform_effect hstep.1
  have hticks := heffect.ticks
  -- An expiry that a known token has had, it had before.
  have hexpiry : ∀ raw limit, HadExpiry env (events ++ [e]) raw limit →
      (∃ n < s.ticks, raw = env.tokenUrlsafe n) → HadExpiry env events raw limit := by
    intro raw limit h hknown
    obtain h | ⟨t, ht, hlimit⟩ := h.snoc (hrun.snoc hstep.1)
    · exact h
    obtain ⟨n, hn, hraw⟩ := hknown
    cases heffect.origin ht with
    | kept t₀ hbefore hsame =>
      rw [hsame] at hlimit
      exact ⟨events, s, t₀, List.prefix_refl _, hrun, hbefore, hlimit⟩
    | root m obj now hm hlt hk =>
      have hmn := hunique.token (hraw.symm.trans (hunique.hash hk))
      omega
    | issued m objectId issuerRaw permissions expiresIn requested obj issuer expiresAt now s₁ hm
        hlt hk =>
      have hmn := hunique.token (hraw.symm.trans (hunique.hash hk))
      omega
  refine ⟨?_, ?_, ?_⟩
  · intro objectId issuerRaw permissions expiresIn raw hmem
    obtain hmem | hmem := List.mem_append.mp hmem
    · obtain ⟨m, n, hm, hn, hissuer, hraw⟩ := hchains.links _ _ _ _ _ hmem
      exact ⟨m, n, hm, hn.trans_le hticks, hissuer, hraw⟩
    · obtain ⟨n, hn, hlt, hraw, obj, issuer, hauthorised⟩ :=
        issued_fresh heffect (List.mem_singleton.mp hmem).symm
      obtain ⟨m, hm, hissuer⟩ := hrecords.drawn_raw hunique hauthorised.known
      exact ⟨m, n, hm.trans_le hn, hlt, hissuer, hraw⟩
  · intro raw limit h
    obtain h | ⟨t, ht, hlimit⟩ := h.snoc (hrun.snoc hstep.1)
    · obtain ⟨⟨n, hn, hraw⟩, hsame⟩ := hchains.expiries raw limit h
      refine ⟨⟨n, hn.trans_le hticks, hraw⟩, ?_⟩
      intro t ht
      cases heffect.origin ht with
      | kept t₀ hbefore ht =>
        rw [ht]
        exact hsame t₀ hbefore
      | root m obj now hm hlt hk =>
        have hmn := hunique.token (hraw.symm.trans (hunique.hash hk))
        omega
      | issued m objectId issuerRaw permissions expiresIn requested obj issuer expiresAt now s₁
          hm hlt hk =>
        have hmn := hunique.token (hraw.symm.trans (hunique.hash hk))
        omega
    · refine ⟨hrecords'.drawn_raw hunique ht, ?_⟩
      intro t' ht'
      rw [ht] at ht'
      cases ht'
      exact hlimit
  · intro ancestor raw limit t hdelegated hhad ht
    cases heffect.origin ht with
    | kept t₀ hbefore hsame =>
      obtain ⟨hdelegated, hancestor⟩ :=
        hdelegated.earlier hchains hunique heffect (hrecords.drawn_raw hunique hbefore)
      rw [hsame]
      exact hchains.below ancestor raw limit t₀ hdelegated (hexpiry _ _ hhad hancestor) hbefore
    | root n obj now hn hlt hk htoken hcall =>
      obtain ⟨objectId, issuerRaw, permissions, expiresIn, he, -⟩ :=
        hdelegated.last hchains hunique hn (hunique.hash hk)
      obtain ⟨action, hcreated⟩ := hcall
      rw [he] at hcreated
      cases hcreated
    | issued n objectId issuerRaw permissions expiresIn requested obj issuer expiresAt now s₁ hn
        hlt hk htoken hcall hauthorised hrunExpiry =>
      obtain ⟨objectId', issuerRaw', permissions', expiresIn', he, hlink⟩ :=
        hdelegated.last hchains hunique hn (hunique.hash hk)
      have hsame := hcall.symm.trans he
      cases hsame
      have hknown := hrecords.drawn_raw hunique hauthorised.known
      -- Every expiry above the issuer, and its own, is kept by the issuer.
      have hissuer : Below issuer.expiresAt limit := by
        obtain rfl | hlink := hlink
        · rw [(hchains.expiries _ limit (hexpiry _ _ hhad hknown)).2 issuer hauthorised.known]
          exact fun now hnow => hnow
        · obtain ⟨hlink, hancestor⟩ := hlink.earlier hchains hunique heffect hknown
          exact hchains.below ancestor issuerRaw limit issuer hlink (hexpiry _ _ hhad hancestor)
            hauthorised.known
      rw [htoken]
      intro now hnow
      have hreached := hissuer now hnow
      cases hown : issuer.expiresAt with
      | none =>
        rw [hown] at hreached
        cases hreached
      | some own =>
        rw [hown] at hreached hrunExpiry
        have hbelow := (expiryOf_below_iff hrunExpiry).mpr fun hbad =>
          hstep.2 _ _ _ _ _ issuer own hcall hauthorised.known hown hbad.2 hbad.1
        exact hbelow now hreached

/-- Capabilities never outlive those they come from, in every run without such a NaN. -/
theorem delegation_bounded (hunique : env.Unique)
    (hrun : Run (BoundedStep env) .init events s) : NeverOutlives env events s := by
  have hplain : ∀ {events s}, Run (BoundedStep env) .init events s → History env events s :=
    fun hrun => hrun.mono fun _ _ _ hstep => hstep.1
  have hchains : Chains env events s := by
    refine hrun.history (I := Chains env) ⟨?_, ?_, ?_⟩ ?_
    · intro objectId issuerRaw permissions expiresIn raw hmem
      cases hmem
    · intro raw limit h
      obtain ⟨before, s₀, t, hpre, hbefore, ht, -⟩ := h
      rw [List.prefix_nil] at hpre
      subst hpre
      rw [hbefore.nil_inv] at ht
      cases ht
    · intro ancestor raw limit t h
      cases h with
      | direct hmem => cases hmem
      | chain h hmem => cases hmem
    · intro events e s₁ s₂ hbefore hI hstep
      have hrecords := (history_records hunique (hplain hbefore)).1
      exact hI.step hrecords (hrecords.step hunique (perform_effect hstep.1)) hunique
        (hplain hbefore) hstep
  intro ancestor raw limit hdelegated hhad hpassed objectId required r s' hvalidate
  obtain ⟨names, -, hauthorised, -⟩ := validate_ok.mp hvalidate
  have hexpired := hchains.below ancestor raw limit _ hdelegated hhad hauthorised.known _ hpassed
  rw [hauthorised.unexpired] at hexpired
  cases hexpired

end Steps

/-! ## A token that never expires -/

section Runs
variable {env : Environment} {s : State}

theorem expiryOf_float {x : PyFloat} (hpositive : (instantOf x).le (.finite 0) = false)
    (limit : Option Instant) (s : State) :
    expiryOf env (.leaf (.float x)) limit s =
      .ok (some (match limit with
        | some limit => (Instant.after (env.time s.ticks) (instantOf x)).min limit
        | none => Instant.after (env.time s.ticks) (instantOf x)))
        { s with ticks := s.ticks + 1 } := by
  unfold expiryOf
  dsimp only
  have hnumber : numberOf (.leaf (.float x)) = .ok (.float x) := rfl
  have hcheck : ¬ (Number.float x).notPositive = true := by
    simp [Number.notPositive, hpositive]
  rw [fromExcept_of_ok (python_eq_ok.mpr hnumber), pure_bind, fromExcept_raiseIf hcheck, pure_bind,
    bind_ok (ask_run _ s)]
  cases limit with
  | none => rfl
  | some limit => rfl

end Runs

/-- A token for reading and granting, valid for five seconds. -/
def grantFiveSeconds : Event where
  action := .issueToken (letters 'o' 0) (letters 't' 4)
    (.list [.leaf (.str "grant"), .leaf (.str "read")]) (.leaf (.float (.finite false 5 0)))
  outcome := .ok (.issued (letters 't' 8))

/-- A token for reading that it grants, with a NaN. -/
def grantNan : Event where
  action := .issueToken (letters 'o' 0) (letters 't' 8) (.list [.leaf (.str "read")])
    (.leaf (.float .nan))
  outcome := .ok (.issued (letters 't' 12))

def boundedToken : TokenRecord :=
  newToken plainEnvironment (letters 't' 8) firstObject (closure [.grant, .read].toFinset) 9
    (some (.finite 12))

def nanToken : TokenRecord :=
  newToken plainEnvironment (letters 't' 12) firstObject (closure [.read].toFinset) 13 (some .nan)

def boundedState : State :=
  ⟨{ firstState.registry with
      tokens := firstState.registry.tokens.set (letters 't' 8) boundedToken },
    firstState.regions, [], 10⟩

def nanState : State :=
  ⟨{ boundedState.registry with
      tokens := boundedState.registry.tokens.set (letters 't' 12) nanToken },
    firstState.regions, [], 14⟩

theorem grantFiveSeconds_step :
    Step plainEnvironment firstState grantFiveSeconds boundedState := by
  have hauthorised : Authorised plainEnvironment firstState (letters 'o' 0) (letters 't' 4)
      ["grant"] firstObject
      (newToken plainEnvironment (letters 't' 4) firstObject allPermissions 5 none) :=
    ⟨letters_ne_empty 't' 4, Dict.get?_set_self, Dict.get?_set_self, rfl, rfl, rfl, rfl,
      by decide⟩
  have hrequested : normalizePermissions plainEnvironment.sortedRepr
      (.list [.leaf (.str "grant"), .leaf (.str "read")]) =
      .ok (closure [.grant, .read].toFinset) := rfl
  have hpositive : (instantOf (.finite false 5 0)).le (.finite 0) = false := by decide +kernel
  have hsum : Instant.after (plainEnvironment.time 7) (instantOf (.finite false 5 0)) =
      .finite 12 := by decide +kernel
  have hexpiry : expiryOf plainEnvironment (.leaf (.float (.finite false 5 0))) none
      { firstState with ticks := 7 } = .ok (some (.finite 12)) { firstState with ticks := 8 } := by
    rw [expiryOf_float hpositive]
    exact congrArg (fun limit => EStateM.Result.ok (some limit) _) hsum
  exact issueToken_run hrequested hauthorised (by decide) hexpiry

theorem grantNan_step : Step plainEnvironment boundedState grantNan nanState := by
  have hauthorised : Authorised plainEnvironment boundedState (letters 'o' 0) (letters 't' 8)
      ["grant"] firstObject boundedToken :=
    ⟨letters_ne_empty 't' 8, Dict.get?_set_self, Dict.get?_set_self, rfl, rfl, by decide +kernel,
      rfl, by decide⟩
  have hrequested : normalizePermissions plainEnvironment.sortedRepr
      (.list [.leaf (.str "read")]) = .ok (closure [.read].toFinset) := rfl
  have hexpiry : expiryOf plainEnvironment (.leaf (.float .nan)) (some (.finite 12))
      { boundedState with ticks := 11 } = .ok (some .nan) { boundedState with ticks := 12 } :=
    expiryOf_float rfl _ _
  exact issueToken_run hrequested hauthorised (by decide) hexpiry

theorem nanHistory :
    History plainEnvironment [createFirst, grantFiveSeconds, grantNan] nanState :=
  ((Run.single createFirst_step).snoc grantFiveSeconds_step).snoc grantNan_step

/-- Two seconds after the expiry of its issuer the token is accepted. -/
theorem nan_outlives : ¬ ∀ (env : Environment) (events : List Event) (s : State), env.Unique →
    Monotone env.time → History env events s → NeverOutlives env events s := by
  intro h
  have hmono : Monotone plainEnvironment.time := fun m n hmn => Nat.cast_le.mpr hmn
  have hnever := h plainEnvironment _ nanState plainEnvironment_unique hmono nanHistory
  have hdelegated : Delegated [createFirst, grantFiveSeconds, grantNan] (letters 't' 8)
      (letters 't' 12) := by
    apply Delegated.direct
    exact List.mem_cons_of_mem _ (List.mem_cons_of_mem _ (List.mem_singleton_self _))
  have hhad : HadExpiry plainEnvironment [createFirst, grantFiveSeconds, grantNan]
      (letters 't' 8) (.finite 12) :=
    ⟨[createFirst, grantFiveSeconds], boundedState, boundedToken, ⟨[grantNan], rfl⟩,
      (Run.single createFirst_step).snoc grantFiveSeconds_step, Dict.get?_set_self, rfl⟩
  have hauthorised : Authorised plainEnvironment nanState (letters 'o' 0) (letters 't' 12)
      ["read"] firstObject nanToken :=
    ⟨letters_ne_empty 't' 12, Dict.get?_set_self, Dict.get?_set_self, rfl, rfl, rfl, rfl,
      by decide⟩
  exact hnever _ _ _ hdelegated hhad (by decide +kernel) (letters 'o' 0) (.leaf (.str "read")) _ _
    (validate_ok.mpr ⟨["read"], requiredSet_name .read, hauthorised, rfl⟩)

/-- Instead it may ask for an hour. -/
def grantHour : Event where
  action := .issueToken (letters 'o' 0) (letters 't' 8) (.list [.leaf (.str "read")])
    (.leaf (.float (.finite false 3600 0)))
  outcome := .ok (.issued (letters 't' 12))

def hourToken : TokenRecord :=
  newToken plainEnvironment (letters 't' 12) firstObject (closure [.read].toFinset) 13
    (some (.finite 12))

def hourState : State :=
  ⟨{ boundedState.registry with
      tokens := boundedState.registry.tokens.set (letters 't' 12) hourToken },
    firstState.regions, [], 14⟩

theorem grantHour_step : Step plainEnvironment boundedState grantHour hourState := by
  have hauthorised : Authorised plainEnvironment boundedState (letters 'o' 0) (letters 't' 8)
      ["grant"] firstObject boundedToken :=
    ⟨letters_ne_empty 't' 8, Dict.get?_set_self, Dict.get?_set_self, rfl, rfl, by decide +kernel,
      rfl, by decide⟩
  have hrequested : normalizePermissions plainEnvironment.sortedRepr
      (.list [.leaf (.str "read")]) = .ok (closure [.read].toFinset) := rfl
  have hpositive : (instantOf (.finite false 3600 0)).le (.finite 0) = false := by decide +kernel
  have hmin : (Instant.after (plainEnvironment.time 11) (instantOf (.finite false 3600 0))).min
      (.finite 12) = .finite 12 := by decide +kernel
  have hexpiry : expiryOf plainEnvironment (.leaf (.float (.finite false 3600 0)))
      (some (.finite 12)) { boundedState with ticks := 11 } =
      .ok (some (.finite 12)) { boundedState with ticks := 12 } := by
    rw [expiryOf_float hpositive]
    exact congrArg (fun limit => EStateM.Result.ok (some limit) _) hmin
  exact issueToken_run hrequested hauthorised (by decide) hexpiry

theorem hour_delegated : Delegated [createFirst, grantFiveSeconds, grantHour] (letters 't' 8)
    (letters 't' 12) :=
  .direct (List.mem_cons_of_mem _ (List.mem_cons_of_mem _ (List.mem_singleton_self _)))

theorem five_expires : HadExpiry plainEnvironment [createFirst, grantFiveSeconds, grantHour]
    (letters 't' 8) (.finite 12) :=
  ⟨[createFirst, grantFiveSeconds], boundedState, boundedToken, ⟨[grantHour], rfl⟩,
    (Run.single createFirst_step).snoc grantFiveSeconds_step, Dict.get?_set_self, rfl⟩

/-- The token that it grants is refused at 14, two seconds after its own end. -/
theorem delegation_bounded_hour :
    NeverOutlives plainEnvironment [createFirst, grantFiveSeconds, grantHour] hourState ∧
      ∀ r s', validate plainEnvironment (letters 'o' 0) (letters 't' 12) (.leaf (.str "read"))
        hourState ≠ .ok r s' := by
  have hcreate : BoundedStep plainEnvironment .init createFirst firstState := by
    refine ⟨createFirst_step, ?_⟩
    intro objectId issuerRaw permissions expiresIn raw issuer limit he
    cases he
  have hfive : BoundedStep plainEnvironment firstState grantFiveSeconds boundedState := by
    refine ⟨grantFiveSeconds_step, ?_⟩
    intro objectId issuerRaw permissions expiresIn raw issuer limit he _ _ _ hnan
    cases he
    cases hnan
  have hhour : BoundedStep plainEnvironment boundedState grantHour hourState := by
    refine ⟨grantHour_step, ?_⟩
    intro objectId issuerRaw permissions expiresIn raw issuer limit he _ _ _ hnan
    cases he
    cases hnan
  have hnever := delegation_bounded plainEnvironment_unique
    (((Run.single hcreate).snoc hfive).snoc hhour)
  exact ⟨hnever, hnever _ _ _ hour_delegated five_expires (by decide +kernel) _ _⟩

end Npb.Mstore
