import Npb.Foundations.Delegation
import Npb.Mstore.Authorisation

/-! # Confinement

Whoever holds some tokens of an object, and guesses no other, never does more with the object than
one of those tokens allows: whatever he asks of the server, on this object or on others, and
whatever everybody else does meanwhile (`confinement`). If he may neither grant nor delete, nothing
he asks changes the object or anybody's tokens for it. -/

namespace Npb.Mstore
set_option autoImplicit false
open Effects

/-! ## Who has which tokens -/

section Visits
variable (env : Environment)

/-- The permissions that a token carries for an object, as long as it is not revoked. -/
def authority (s : State) (objectId : String) : Holdings String (Finset Permission) := fun raw =>
  (s.registry.tokens.get? (env.hashToken raw)).bind fun t =>
    if t.objectId = objectId ∧ t.revoked = false then some t.permissions else none

/-- The object and the token that a call is made with. -/
def Action.presented : Action → Option (String × String)
  | .validate objectId raw _ | .issueToken objectId raw _ _ | .revokeToken objectId raw _
  | .deleteObject objectId raw => some (objectId, raw)
  | .createObject .. | .close => none

/-- The token that an answer hands out. -/
def handed : Except Failure Reply → Option String
  | .ok (result, _) =>
    match getKey result "token" with
    | .leaf (.str raw) => some raw
    | _ => none
  | .error _ => none

/-- A request, by the holder of some tokens (`own`) or by somebody else. -/
structure Visit where
  own : Bool
  exchange : Exchange

/-- The request carries a token that is held, or one that is not on record. -/
def Presents (s : State) (held : Set String) (request : List (String × Json)) : Prop :=
  ∀ args objectId raw, requestArgs request = .ok args →
    requestTarget env args = some (objectId, raw) →
    raw ∈ held ∨ s.registry.tokens.get? (env.hashToken raw) = none

def heldAfter (held : Set String) (v : Visit) : Set String :=
  if v.own then {raw | handed v.exchange.outcome = some raw} ∪ held else held

/-- A visit to the server; the holder keeps the tokens that he is given. -/
def Visits (endpoint : String) (x : State × Set String) (v : Visit) (y : State × Set String) :
    Prop :=
  Serve env endpoint x.1 v.exchange y.1 ∧
    (v.own = true → Presents env x.1 x.2 v.exchange.request) ∧ y.2 = heldAfter x.2 v

end Visits

/-! ## The call behind a request -/

section Requests
variable {env : Environment} {endpoint : String} {args request : List (String × Json)}
  {action : Action} {answer : Answer} {s s' : State} {op : Json} {objectId token raw : String}

theorem objectAction_presented (h : objectAction env op args objectId token = some action) :
    action.presented = some (objectId, token) := by
  unfold objectAction at h
  split at h
  · obtain ⟨p, -, rfl⟩ := Option.map_eq_some_iff.mp h
    rfl
  split at h
  · cases h
    rfl
  split at h
  · cases h
    rfl
  split at h
  · split at h
    · split at h
      · cases h
      · cases h
        rfl
    · cases h
  split at h
  · cases h
    rfl
  · cases h

theorem actionOf_presented (h : actionOf env request = some action)
    (hpresented : action.presented = some (objectId, token)) :
    ∃ args, requestArgs request = .ok args ∧
      requestTarget env args = some (objectId, token) := by
  unfold actionOf at h
  dsimp only at h
  cases hargs : requestArgs request with
  | error e =>
    rw [hargs] at h
    cases h
  | ok args =>
    rw [hargs] at h
    dsimp only at h
    refine ⟨args, rfl, ?_⟩
    split at h
    · cases h
    split at h
    · split at h
      · cases h
        cases hpresented
      · cases h
    · obtain ⟨target, htarget, h⟩ := Option.bind_eq_some_iff.mp h
      rw [objectAction_presented h] at hpresented
      cases hpresented
      exact htarget

theorem respond_handed {reply : Reply} (h : respond env op args answer s = .ok reply s')
    (hhanded : handed (.ok reply) = some raw) :
    answer = .issued raw ∨ ∃ obj, answer = .created obj raw := by
  cases answer with
  | created obj token =>
    obtain ⟨⟨mapped, fd⟩, s₁, -, h⟩ := bind_eq_ok.mp h
    cases h
    cases hhanded
    exact .inr ⟨obj, rfl⟩
  | validated obj token =>
    unfold respond at h
    dsimp only at h
    split at h
    · cases hrequired : openRequired args with
      | none =>
        rw [hrequired] at h
        cases h
      | some required =>
        rw [hrequired] at h
        obtain ⟨⟨mapped, fd⟩, s₁, -, h⟩ := bind_eq_ok.mp h
        cases h
        cases hhanded
    · cases h
      cases hhanded
  | issued token =>
    cases h
    cases hhanded
    exact .inl rfl
  | done =>
    cases h
    revert hhanded
    unfold flagReply
    split <;> exact nofun

theorem handle_pinged {reply : Reply} (hping : isText "ping" (getKey request "op") = true)
    (h : handle env endpoint request s = .ok reply s') :
    reply = ([("pong", .leaf (.bool true)), ("endpoint", .leaf (.str endpoint))], none) := by
  unfold handle at h
  obtain ⟨args, s₁, -, h⟩ := bind_eq_ok.mp h
  rw [if_pos hping] at h
  cases h
  rfl

/-- What a visit does: nothing, or one call, whose token the answer may hand out. -/
theorem serve_handed {x : Exchange} (h : Serve env endpoint s x s') :
    (handed x.outcome = none ∧ Unchanged s s') ∨
      ∃ action outcome s₁, actionOf env x.request = some action ∧
        Effect env s ⟨action, outcome⟩ s₁ ∧ Unchanged s₁ s' ∧
        ∀ raw, handed x.outcome = some raw →
          outcome = .ok (.issued raw) ∨ ∃ obj, outcome = .ok (.created obj raw) := by
  obtain ⟨houtcome, hfinal, -⟩ := h
  cases haction : actionOf env x.request with
  | none =>
    left
    obtain ⟨hping, reply, hrun⟩ | ⟨failure, -, hrun⟩ := handle_idle endpoint haction
    · rw [hrun] at hfinal houtcome
      refine ⟨?_, hfinal ▸ quiet_pure _ s⟩
      rw [← houtcome]
      rw [handle_pinged hping (congrFun hrun s)]
      rfl
    · rw [hrun] at hfinal houtcome
      rw [← houtcome]
      exact ⟨rfl, hfinal ▸ quiet_raise _ s⟩
  | some action =>
    right
    obtain ⟨args, -, hrun⟩ := handle_eq endpoint haction
    rw [hrun] at hfinal houtcome
    refine ⟨action, _, _, rfl, perform_effect (step_perform action s), ?_, ?_⟩
    · rw [← hfinal]
      cases hperform : perform env action s with
      | ok answer s₁ =>
        rw [bind_ok hperform]
        exact respond_quiet _ _ answer s₁
      | error failure s₁ =>
        rw [bind_error hperform]
        exact Unchanged.refl s₁
    · intro raw hraw
      rw [← houtcome] at hraw
      cases hperform : perform env action s with
      | error failure s₁ =>
        rw [bind_error hperform] at hraw
        cases hraw
      | ok answer s₁ =>
        rw [bind_ok hperform] at hraw
        cases hrespond : respond env (getKey x.request "op") args answer s₁ with
        | error failure s₂ =>
          rw [hrespond] at hraw
          cases hraw
        | ok reply s₂ =>
          rw [hrespond] at hraw
          obtain rfl | ⟨obj, rfl⟩ := respond_handed hrespond hraw
          · exact .inl rfl
          · exact .inr ⟨obj, rfl⟩

end Requests

/-! ## Visits as moves of tokens -/

section Moves
variable {env : Environment} {endpoint : String} {s s' : State} {e : Event}
  {held : Set String} {objectId raw : String} {permissions : Finset Permission} {v : Visit}
  {x y : State × Set String}

theorem authority_eq_some : authority env s objectId raw = some permissions ↔
    ∃ t, s.registry.tokens.get? (env.hashToken raw) = some t ∧ t.objectId = objectId ∧
      t.revoked = false ∧ t.permissions = permissions := by
  simp only [authority, Option.bind_eq_some_iff, Option.ite_none_right_eq_some, Option.some.injEq,
    and_assoc]

theorem authority_congr (hregistry : s'.registry = s.registry) :
    authority env s' objectId = authority env s objectId := by
  unfold authority
  rw [hregistry]

/-- No token that is held is drawn again. -/
def Spent (env : Environment) (s : State) (held : Set String) : Prop :=
  ∀ raw ∈ held, ∀ n, s.ticks ≤ n → env.tokenUrlsafe n ≠ raw

/-- The object was registered in the past. -/
def Named (env : Environment) (s : State) (objectId : String) : Prop :=
  ∃ n < s.ticks, objectId = env.uuid4 n

theorem Effect.drawn_token (h : Effect env s e s')
    (hraw : e.outcome = .ok (.issued raw) ∨ ∃ obj, e.outcome = .ok (.created obj raw)) :
    ∃ n, s.ticks ≤ n ∧ n < s'.ticks ∧ raw = env.tokenUrlsafe n := by
  cases h with
  | created n m t obj region now hsize hn hm ht =>
    obtain hraw | ⟨obj', hraw⟩ := hraw
    · cases hraw
    · cases hraw
      exact ⟨m, by omega, ht, rfl⟩
  | issued requested obj issuer expiresAt s₁ hrequested hauthorised hgrant hsubset hexpiry hs₁ =>
    obtain hraw | ⟨obj', hraw⟩ := hraw
    · cases hraw
      exact ⟨s₁.ticks, hs₁.ticks, Nat.lt_add_of_pos_right (by decide), rfl⟩
    · cases hraw
  | failed => obtain hraw | ⟨obj', hraw⟩ := hraw <;> cases hraw
  | validated => obtain hraw | ⟨obj', hraw⟩ := hraw <;> cases hraw
  | revoked => obtain hraw | ⟨obj', hraw⟩ := hraw <;> cases hraw
  | deleted => obtain hraw | ⟨obj', hraw⟩ := hraw <;> cases hraw
  | closed => obtain hraw | ⟨obj', hraw⟩ := hraw <;> cases hraw

/-- A call takes authority over an object away, or lets one token pass on a part of its own. -/
theorem Effect.authority (h : Effect env s e s') (hunique : env.Unique)
    (hnamed : Named env s objectId) (hrecords : Records env s) :
    (∀ raw permissions, authority env s' objectId raw = some permissions →
      authority env s objectId raw = some permissions) ∨
    ∃ issuer n held granted, e.action.presented = some (objectId, issuer) ∧
      e.outcome = .ok (.issued (env.tokenUrlsafe n)) ∧
      Mstore.authority env s objectId issuer = some held ∧ granted ⊆ held ∧
      Mstore.authority env s' objectId (env.tokenUrlsafe n) = some granted ∧
      ∀ u, u ≠ env.tokenUrlsafe n →
        Mstore.authority env s' objectId u = Mstore.authority env s objectId u := by
  cases h with
  | failed hsame =>
    refine .inl fun raw permissions hraw => ?_
    rwa [authority_congr hsame.registry] at hraw
  | created n m t obj region now hsize hn hm ht hid =>
    refine .inl fun raw permissions hraw => ?_
    obtain ⟨record, hget, hbound, hlive, hpermissions⟩ := authority_eq_some.mp hraw
    rw [Dict.get?_set] at hget
    split at hget
    · -- The new token is for a new object.
      cases hget
      obtain ⟨k, hk, hobject⟩ := hnamed
      have hsame : env.uuid4 n = env.uuid4 k := by
        rw [← hid, ← hobject]
        exact hbound
      have := hunique.id hsame
      omega
    · exact authority_eq_some.mpr ⟨record, hget, hbound, hlive, hpermissions⟩
  | validated => exact .inl fun raw permissions hraw => hraw
  | @issued o issuerRaw perms expiresIn requested obj issuer expiresAt s₁ hrequested hauthorised
      hgrant hsubset =>
    have hother : ∀ u, u ≠ env.tokenUrlsafe s₁.ticks → Mstore.authority env
        ⟨{ s.registry with
            tokens := s.registry.tokens.set (env.hashToken (env.tokenUrlsafe s₁.ticks))
              (newToken env (env.tokenUrlsafe s₁.ticks) obj requested (env.time (s₁.ticks + 1))
                expiresAt) },
          s.regions, s.closed, s₁.ticks + 2⟩ objectId u =
        Mstore.authority env s objectId u := by
      intro u hu
      unfold Mstore.authority
      rw [Dict.get?_set_of_ne (hunique.hash.ne hu)]
    have hobject := hrecords.object_id hauthorised.registered
    by_cases ho : o = objectId
    · subst ho
      refine .inr ⟨issuerRaw, s₁.ticks, issuer.permissions, requested, rfl, rfl, ?_, hsubset, ?_,
        hother⟩
      · exact authority_eq_some.mpr ⟨issuer, hauthorised.known, hauthorised.bound,
          hauthorised.live, rfl⟩
      · exact authority_eq_some.mpr ⟨_, Dict.get?_set_self, hobject, rfl, rfl⟩
    · refine .inl fun raw permissions hraw => ?_
      by_cases hnew : raw = env.tokenUrlsafe s₁.ticks
      · subst hnew
        obtain ⟨record, hget, hbound, -⟩ := authority_eq_some.mp hraw
        rw [Dict.get?_set_self] at hget
        cases hget
        exact absurd (hobject.symm.trans hbound) ho
      · rwa [hother raw hnew] at hraw
  | @revoked o issuerRaw targetRaw obj issuer target hauthorised hgrant htarget hbound =>
    refine .inl fun raw permissions hraw => ?_
    obtain ⟨record, hget, hbound, hlive, hpermissions⟩ := authority_eq_some.mp hraw
    rw [Dict.get?_set] at hget
    split at hget
    · cases hget
      cases hlive
    · exact authority_eq_some.mpr ⟨record, hget, hbound, hlive, hpermissions⟩
  | deleted obj token hauthorised hdelete =>
    refine .inl fun raw permissions hraw => ?_
    obtain ⟨record, hget, hbound, hlive, hpermissions⟩ := authority_eq_some.mp hraw
    have hmem := (Dict.mem_filter.mp (Dict.get?_eq_some.mp hget)).1
    exact authority_eq_some.mpr
      ⟨record, Dict.get?_eq_some.mpr hmem, hbound, hlive, hpermissions⟩
  | closed =>
    refine .inl fun raw permissions hraw => ?_
    obtain ⟨record, hget, -⟩ := authority_eq_some.mp hraw
    cases hget

theorem heldAfter_cases (held : Set String) (v : Visit) : heldAfter held v = held ∨
    ∃ raw, v.own = true ∧ handed v.exchange.outcome = some raw ∧
      heldAfter held v = insert raw held := by
  unfold heldAfter
  cases hown : v.own with
  | false => exact .inl rfl
  | true =>
    rw [if_pos rfl]
    cases hhanded : handed v.exchange.outcome with
    | none => exact .inl (by simp)
    | some raw =>
      refine .inr ⟨raw, rfl, rfl, ?_⟩
      ext u
      simp [eq_comm]

theorem Records.undrawn (h : Records env s) (hunique : env.Unique) {n : ℕ} (hn : s.ticks ≤ n) :
    authority env s objectId (env.tokenUrlsafe n) = none := by
  refine Option.eq_none_iff_forall_ne_some.mpr fun permissions hraw => ?_
  obtain ⟨t, hget, -⟩ := authority_eq_some.mp hraw
  exact h.fresh_hash hunique hn (Dict.get?_eq_some.mp hget) rfl

/-- Every visit is a move of tokens, as far as one object goes. -/
theorem Visits.delegates (h : Visits env endpoint x v y) (hunique : env.Unique)
    (hrecords : Records env x.1) (hspent : Spent env x.1 x.2) (hnamed : Named env x.1 objectId) :
    ∃ own, Delegates own (x.2, authority env x.1 objectId) (y.2, authority env y.1 objectId) := by
  obtain ⟨hserve, hpresents, hheld⟩ := h
  rw [hheld]
  obtain ⟨hhanded, hsame⟩ | ⟨action, outcome, s₁, haction, heffect, hsame, hhanded⟩ :=
    serve_handed hserve
  · obtain hkept | ⟨raw, -, hraw, -⟩ := heldAfter_cases x.2 v
    · rw [hkept, authority_congr hsame.registry]
      exact ⟨false, .loses fun _ _ hraw => hraw⟩
    · rw [hhanded] at hraw
      cases hraw
  · rw [authority_congr hsame.registry]
    obtain hless | ⟨issuer, n, had, granted, hpresented, houtcome, hissuer, hsubset, hnew, hold⟩ :=
      heffect.authority hunique hnamed hrecords
    · obtain hkept | ⟨raw, -, hraw, hinsert⟩ := heldAfter_cases x.2 v
      · rw [hkept]
        exact ⟨false, .loses hless⟩
      · obtain ⟨n, hn, -, rfl⟩ := heffect.drawn_token (hhanded raw hraw)
        rw [hinsert]
        refine ⟨true, .elsewhere _ hless (Option.eq_none_iff_forall_ne_some.mpr ?_)⟩
        intro permissions hauthority
        cases (hrecords.undrawn hunique hn).symm.trans (hless _ _ hauthority)
    · obtain ⟨m, hm, -, hdrawn⟩ := heffect.drawn_token (.inl houtcome)
      have hfresh : env.tokenUrlsafe n ∉ x.2 := fun hmem => hspent _ hmem m hm hdrawn.symm
      obtain hkept | ⟨raw, hown, hraw, hinsert⟩ := heldAfter_cases x.2 v
      · rw [hkept]
        exact ⟨false, .grants issuer _ had granted hissuer hsubset nofun hfresh hnew hold rfl⟩
      · have heq : raw = env.tokenUrlsafe n := by
          dsimp only at houtcome
          obtain hraw | ⟨obj, hraw⟩ := hhanded raw hraw
          · rw [houtcome] at hraw
            cases hraw
            rfl
          · rw [houtcome] at hraw
            cases hraw
        rw [hinsert, heq]
        refine ⟨true, .grants issuer _ had granted hissuer hsubset ?_ hfresh hnew hold rfl⟩
        intro _
        obtain ⟨args, hargs, htarget⟩ := actionOf_presented haction hpresented
        obtain hmem | hnone := hpresents hown args objectId issuer hargs htarget
        · exact hmem
        · obtain ⟨t, hget, -⟩ := authority_eq_some.mp hissuer
          rw [hnone] at hget
          cases hget

theorem Records.serve (h : Records env s) (hunique : env.Unique) {exchange : Exchange}
    (hserve : Serve env endpoint s exchange s') : Records env s' := by
  obtain ⟨-, hsame⟩ | ⟨e, s₁, -, hstep, hsame⟩ := serve_step hserve
  · exact h.later hsame.ticks hsame.registry
  · exact (h.step hunique (perform_effect hstep)).later hsame.ticks hsame.registry

theorem serve_ticks {exchange : Exchange} (hserve : Serve env endpoint s exchange s') :
    s.ticks ≤ s'.ticks := by
  obtain ⟨-, hsame⟩ | ⟨e, s₁, -, hstep, hsame⟩ := serve_step hserve
  · exact hsame.ticks
  · exact (perform_effect hstep).ticks.trans hsame.ticks

theorem Spent.visit (h : Spent env x.1 x.2) (hunique : env.Unique)
    (hvisit : Visits env endpoint x v y) : Spent env y.1 y.2 := by
  obtain ⟨hserve, -, hheld⟩ := hvisit
  have hticks := serve_ticks hserve
  have hold : ∀ raw ∈ x.2, ∀ n, y.1.ticks ≤ n → env.tokenUrlsafe n ≠ raw := fun raw hraw n hn =>
    h raw hraw n (hticks.trans hn)
  rw [hheld]
  obtain hkept | ⟨raw, -, hraw, hinsert⟩ := heldAfter_cases x.2 v
  · rwa [hkept]
  rw [hinsert]
  intro u hu n hn heq
  obtain rfl | hu := Set.mem_insert_iff.mp hu
  · obtain ⟨hhanded, -⟩ | ⟨action, outcome, s₁, -, heffect, hsame, hhanded⟩ := serve_handed hserve
    · rw [hhanded] at hraw
      cases hraw
    · obtain ⟨m, -, hm, rfl⟩ := heffect.drawn_token (hhanded u hraw)
      have := hunique.token heq
      have := hsame.ticks
      omega
  · exact hold u hu n hn heq

/-! ## What the holder can do -/

/-- The object and all tokens for it are as they were. -/
structure Intact (objectId : String) (s s' : State) : Prop where
  object : s'.registry.objects.get? objectId = s.registry.objects.get? objectId
  tokens : ∀ k t, t.objectId = objectId →
    ((k, t) ∈ s'.registry.tokens.items ↔ (k, t) ∈ s.registry.tokens.items)

theorem Intact.of_registry (h : s'.registry = s.registry) : Intact objectId s s' := by
  refine ⟨by rw [h], fun k t _ => by rw [h]⟩

/-- Another token, for something else, takes the place of nothing that matters. -/
theorem Intact.set {k : String} {t : TokenRecord} (hother : t.objectId ≠ objectId)
    (hplace : ∀ u, (k, u) ∈ s.registry.tokens.items → u.objectId ≠ objectId)
    (hobject : s'.registry.objects.get? objectId = s.registry.objects.get? objectId)
    (htokens : s'.registry.tokens = s.registry.tokens.set k t) : Intact objectId s s' := by
  refine ⟨hobject, fun k' u hu => ?_⟩
  rw [htokens, Dict.mem_set]
  constructor
  · rintro (heq | ⟨hmem, -⟩)
    · cases heq
      exact absurd hu hother
    · exact hmem
  · intro hmem
    refine .inr ⟨hmem, fun hk => ?_⟩
    cases hk
    exact hplace u hmem hu

/-- A call that is not made with a token for granting or deleting leaves the object alone. -/
theorem Effect.intact (h : Effect env s e s') (hrecords : Records env s) (hunique : env.Unique)
    (hnamed : Named env s objectId) (hopen : e.action ≠ .close)
    (hweak : ∀ raw t, e.action.presented = some (objectId, raw) →
      s.registry.tokens.get? (env.hashToken raw) = some t → t.objectId = objectId →
      t.revoked = false → .grant ∉ t.permissions ∧ .delete ∉ t.permissions) :
    Intact objectId s s' := by
  cases h with
  | failed hsame => exact .of_registry hsame.registry
  | created n m t obj region now hsize hn hm ht hid =>
    obtain ⟨k, hk, hobject⟩ := hnamed
    have hne : obj.objectId ≠ objectId := by
      intro heq
      rw [hid, hobject] at heq
      have := hunique.id heq
      omega
    refine .set hne ?_ (Dict.get?_set_of_ne hne.symm) rfl
    intro u hu
    exact absurd rfl (hrecords.fresh_hash hunique (hn.trans hm.le) hu)
  | validated => exact .of_registry rfl
  | @issued o issuerRaw perms expiresIn requested obj issuer expiresAt s₁ hrequested hauthorised
      hgrant hsubset hexpiry hs₁ =>
    have hne : o ≠ objectId := by
      rintro rfl
      exact (hweak issuerRaw issuer rfl hauthorised.known hauthorised.bound
        hauthorised.live).1 hgrant
    refine .set ?_ ?_ rfl rfl
    · exact fun heq => hne ((hrecords.object_id hauthorised.registered).symm.trans heq)
    · intro u hu
      exact absurd rfl (hrecords.fresh_hash hunique hs₁.ticks hu)
  | @revoked o issuerRaw targetRaw obj issuer target hauthorised hgrant htarget hbound =>
    have hne : target.objectId ≠ objectId := by
      rintro rfl
      rw [hbound] at hweak
      exact (hweak issuerRaw issuer rfl hauthorised.known hauthorised.bound
        hauthorised.live).1 hgrant
    refine .set (t := { target with revoked := true }) hne ?_ rfl rfl
    intro u hu
    rw [s.registry.tokens.value_unique hu (Dict.get?_eq_some.mp htarget)]
    exact hne
  | @deleted o rawToken obj token hauthorised hdelete =>
    have hne : o ≠ objectId := by
      rintro rfl
      exact (hweak rawToken token rfl hauthorised.known hauthorised.bound
        hauthorised.live).2 hdelete
    refine ⟨Dict.get?_pop_of_ne hne.symm, fun k t ht => ?_⟩
    rw [Dict.mem_filter]
    simp only [ht, ne_eq, decide_not, Bool.not_eq_true', decide_eq_false_iff_not]
    exact and_iff_left hne.symm
  | closed => exact absurd rfl hopen

theorem actionOf_ne_close (request : List (String × Json)) :
    actionOf env request ≠ some .close := by
  intro h
  unfold actionOf at h
  dsimp only at h
  split at h
  · cases h
  split at h
  · cases h
  split at h
  · split at h <;> cases h
  · obtain ⟨target, -, h⟩ := Option.bind_eq_some_iff.mp h
    cases objectAction_presented h

theorem neededPermission_operation {op : Json} {args : List (String × Json)} {p : Permission}
    (h : neededPermission op args = some p) :
    ∃ name ∈ objectOperations, isText name op = true := by
  unfold neededPermission at h
  split at h
  · next hop => exact ⟨_, by decide, hop⟩
  split at h
  · next hop => exact ⟨_, by decide, hop⟩
  split at h
  · next hop => exact ⟨_, by decide, hop⟩
  split at h
  · next hop => exact ⟨_, by decide, hop⟩
  split at h
  · next hop => exact ⟨_, by decide, hop⟩
  · cases h

theorem Visits.presented (h : Visits env endpoint x v y) (hown : v.own = true)
    {args : List (String × Json)} (hargs : requestArgs v.exchange.request = .ok args)
    (htarget : requestTarget env args = some (objectId, raw)) {t : TokenRecord}
    (ht : x.1.registry.tokens.get? (env.hashToken raw) = some t) : raw ∈ x.2 := by
  obtain hmem | hnone := h.2.1 hown args objectId raw hargs htarget
  · exact hmem
  · rw [hnone] at ht
    cases ht

/-- Between two visits of somebody whose tokens for the object carry no more than `permissions`. -/
structure ConfinedTo (env : Environment) (endpoint objectId : String)
    (permissions : Finset Permission) (x : State × Set String) : Prop where
  held : ∀ raw ∈ x.2, ∀ t, x.1.registry.tokens.get? (env.hashToken raw) = some t →
    t.objectId = objectId → t.revoked = false → t.permissions ⊆ permissions
  /-- He does only what they allow. -/
  exercised : ∀ v y, Visits env endpoint x v y → v.own = true →
    ∀ reply args raw p, v.exchange.outcome = .ok reply →
      requestArgs v.exchange.request = .ok args →
      requestTarget env args = some (objectId, raw) →
      neededPermission (getKey v.exchange.request "op") args = some p → p ∈ permissions
  /-- If they allow neither to grant nor to delete, he changes nothing. -/
  intact : .grant ∉ permissions → .delete ∉ permissions →
    ∀ v y, Visits env endpoint x v y → v.own = true → Intact objectId x.1 y.1

/-- Tokens that carry no more than `permissions` allow no more than that. -/
theorem ConfinedTo.of_confined (hrecords : Records env x.1) (hunique : env.Unique)
    (hnamed : Named env x.1 objectId)
    (hconfined : Confined permissions (x.2, authority env x.1 objectId)) :
    ConfinedTo env endpoint objectId permissions x := by
  have hheld : ∀ raw ∈ x.2, ∀ t, x.1.registry.tokens.get? (env.hashToken raw) = some t →
      t.objectId = objectId → t.revoked = false → t.permissions ⊆ permissions :=
    fun raw hraw t hget hbound hlive =>
      hconfined raw hraw _ (authority_eq_some.mpr ⟨t, hget, hbound, hlive, rfl⟩)
  constructor
  · exact hheld
  · intro v y hvisit hown reply args raw p houtcome hargs htarget hneeded
    obtain ⟨name, hname, hop⟩ := neededPermission_operation hneeded
    have hhandle : handle env endpoint v.exchange.request x.1 = .ok reply y.1 := by
      obtain ⟨hout, hfinal, -⟩ := hvisit.1
      rw [houtcome] at hout
      cases hrun : handle env endpoint v.exchange.request x.1 with
      | ok result s₁ =>
        rw [hrun] at hout hfinal
        cases hout
        cases hfinal
        rfl
      | error failure s₁ =>
        rw [hrun] at hout
        cases hout
    obtain ⟨args', p', o', raw', obj, record, hargs', hneeded', htarget', hauthorised, hmem⟩ :=
      handle_authorised hname hop hhandle
    rw [hargs] at hargs'
    cases hargs'
    rw [hneeded] at hneeded'
    cases hneeded'
    rw [htarget] at htarget'
    cases htarget'
    have hraw := hvisit.presented hown hargs htarget hauthorised.known
    exact hheld raw hraw record hauthorised.known hauthorised.bound hauthorised.live hmem
  · intro hgrant hdelete v y hvisit hown
    obtain ⟨-, hsame⟩ | ⟨action, outcome, s₁, haction, heffect, hsame, -⟩ :=
      serve_handed hvisit.1
    · exact .of_registry hsame.registry
    · have hintact : Intact objectId x.1 s₁ := by
        refine heffect.intact hrecords hunique hnamed ?_ ?_
        · rintro rfl
          exact actionOf_ne_close _ haction
        · intro raw t hpresented hget hbound hlive
          obtain ⟨args, hargs, htarget⟩ := actionOf_presented haction hpresented
          have hraw := hvisit.presented hown hargs htarget hget
          have hsubset := hheld raw hraw t hget hbound hlive
          exact ⟨fun hmem => hgrant (hsubset hmem), fun hmem => hdelete (hsubset hmem)⟩
      exact ⟨hsame.registry ▸ hintact.object, hsame.registry ▸ hintact.tokens⟩

/-- However many visits there are, and whoever makes them in between, the holder of some tokens
never comes to more than they carry at the start. -/
theorem confinement (hunique : env.Unique) {before : List Exchange}
    (hbefore : Run (Serve env endpoint) .init before s) {obj : ObjectRecord}
    (hobject : s.registry.objects.get? objectId = some obj) (hspent : Spent env s held)
    (hheld : ∀ raw ∈ held, ∀ t, s.registry.tokens.get? (env.hashToken raw) = some t →
      t.objectId = objectId → t.revoked = false → t.permissions ⊆ permissions)
    {visits : List Visit} (hrun : Run (Visits env endpoint) (s, held) visits x) :
    ConfinedTo env endpoint objectId permissions x := by
  have hrecords := (served_traced hunique hbefore).1
  have hnamed : Named env s objectId :=
    (hrecords.named objectId obj (Dict.get?_eq_some.mp hobject)).2
  have hconfined : Confined permissions (held, authority env s objectId) := by
    intro raw hraw granted hgranted
    obtain ⟨t, hget, hbound, hlive, rfl⟩ := authority_eq_some.mp hgranted
    exact hheld raw hraw t hget hbound hlive
  suffices h : Records env x.1 ∧ Spent env x.1 x.2 ∧ Named env x.1 objectId ∧
      Confined permissions (x.2, authority env x.1 objectId) from
    .of_confined h.1 hunique h.2.2.1 h.2.2.2
  refine hrun.invariant (I := fun x => Records env x.1 ∧ Spent env x.1 x.2 ∧
    Named env x.1 objectId ∧ Confined permissions (x.2, authority env x.1 objectId)) ?_
    ⟨hrecords, hspent, hnamed, hconfined⟩
  rintro v x₁ x₂ ⟨hrecords, hspent, ⟨n, hn, hid⟩, hconfined⟩ hvisit
  obtain ⟨own, hmove⟩ := hvisit.delegates hunique hrecords hspent ⟨n, hn, hid⟩
  exact ⟨hrecords.serve hunique hvisit.1, hspent.visit hunique hvisit,
    ⟨n, hn.trans_le (serve_ticks hvisit.1), hid⟩, hconfined.step hmove⟩

end Moves

/-! ## A reader -/

/-- The reader tries to delete the object. -/
def deleteRequest : List (String × Json) :=
  [("op", .leaf (.str "delete")), ("args", .dict [("object_id", .leaf (.str (letters 'o' 0))),
    ("token", .leaf (.str (letters 't' 8)))])]

def refusedState : State := served readerState deleteRequest

def ownState : State := served refusedState createRequest

/-- He is refused, makes an object of his own, and somebody else is given another token. -/
def readerVisits : List Visit :=
  [⟨true, exchangeAt readerState deleteRequest⟩, ⟨true, exchangeAt refusedState createRequest⟩,
    ⟨false, exchangeAt ownState grantRead⟩]

theorem reader_presents :
    Presents plainEnvironment readerState {letters 't' 8} deleteRequest := by
  intro args objectId raw hargs htarget
  cases hargs
  have hraw : requestTarget plainEnvironment
      [("object_id", .leaf (.str (letters 'o' 0))), ("token", .leaf (.str (letters 't' 8)))] =
      some (letters 'o' 0, letters 't' 8) := rfl
  cases hraw.symm.trans htarget
  exact .inl rfl

theorem reader_creates (s : State) (held : Set String) :
    Presents plainEnvironment s held createRequest := by
  intro args objectId raw hargs htarget
  cases hargs
  have hnone : requestTarget plainEnvironment [("size", .leaf (.int 8))] = none := rfl
  cases hnone.symm.trans htarget

def readerHeld : Set String := heldAfter (heldAfter {letters 't' 8}
  ⟨true, exchangeAt readerState deleteRequest⟩) ⟨true, exchangeAt refusedState createRequest⟩

theorem reader_visits : Run (Visits plainEnvironment "") (readerState, {letters 't' 8})
    readerVisits (served ownState grantRead, readerHeld) := by
  have hrefused : Run (Visits plainEnvironment "") (readerState, {letters 't' 8})
      [⟨true, exchangeAt readerState deleteRequest⟩]
      (refusedState, heldAfter {letters 't' 8} ⟨true, exchangeAt readerState deleteRequest⟩) :=
    .single ⟨⟨rfl, rfl, rfl⟩, fun _ => reader_presents, rfl⟩
  have hown : Run (Visits plainEnvironment "") (readerState, {letters 't' 8})
      [⟨true, exchangeAt readerState deleteRequest⟩, ⟨true, exchangeAt refusedState createRequest⟩]
      (ownState, readerHeld) :=
    hrefused.snoc ⟨⟨rfl, rfl, rfl⟩, fun _ => reader_creates _ _, rfl⟩
  exact hown.snoc ⟨⟨rfl, rfl, rfl⟩, nofun, rfl⟩

/-- Whoever has only the new token may read and ask for information, whatever he does. -/
theorem confinement_reader : handed (exchangeAt readerState deleteRequest).outcome = none ∧
    letters 't' 8 ∈ readerHeld ∧
    ConfinedTo plainEnvironment "" (letters 'o' 0) {.read, .info}
      (served ownState grantRead, readerHeld) := by
  have hobject : readerState.registry.objects.get? (letters 'o' 0) = some firstObject := rfl
  refine ⟨rfl, .inr (.inr rfl),
    confinement plainEnvironment_unique reader_served hobject ?_ ?_ reader_visits⟩
  · rintro raw rfl n hn heq
    have := letters_injective 't' heq
    have hticks : readerState.ticks = 10 := by decide
    omega
  · rintro raw rfl t hget - -
    have hrecord : (readerState.registry.tokens.get? (letters 't' 8)).map
        TokenRecord.permissions = some {.read, .info} := by decide
    have hpermissions : t.permissions = {.read, .info} := by
      have hread : readerState.registry.tokens.get? (letters 't' 8) = some t := hget
      rw [hread] at hrecord
      exact Option.some.inj hrecord
    rw [hpermissions]

end Npb.Mstore
