import Npb.Mstore.Integrity

/-! # How long a token is good for

A token on record is accepted for exactly the permissions it was issued with, until it expires, it
is revoked, its object is deleted or the registry is closed, and no other call of anybody changes
this (`accepted_iff`). -/

namespace Npb.Mstore
set_option autoImplicit false
open Effects

/-- The call takes the token out of force. -/
inductive Ends (objectId raw : String) : Event → Prop
  | revoked (o issuerRaw : String) :
    Ends objectId raw ⟨.revokeToken o issuerRaw raw, .ok .done⟩
  | deleted (rawToken : String) : Ends objectId raw ⟨.deleteObject objectId rawToken, .ok .done⟩
  | closed : Ends objectId raw ⟨.close, .ok .done⟩

/-- The token is on record with its object, and in force. -/
structure InForce (env : Environment) (raw : String) (t : TokenRecord) (s : State) : Prop where
  known : s.registry.tokens.get? (env.hashToken raw) = some t
  registered : ∃ obj, s.registry.objects.get? t.objectId = some obj ∧
    obj.generation = t.generation
  live : t.revoked = false

section Steps
variable {env : Environment} {raw : String} {t : TokenRecord} {s s' : State} {e : Event}

/-- Calls on other tokens and other objects, and calls that raise, do not matter. -/
theorem InForce.step (h : InForce env raw t s) (hrecords : Records env s) (hunique : env.Unique)
    (heffect : Effect env s e s') (hends : ¬ Ends t.objectId raw e) : InForce env raw t s' := by
  obtain ⟨hknown, ⟨obj, hobj, hgeneration⟩, hlive⟩ := h
  have hmem := Dict.get?_eq_some.mp hknown
  cases heffect with
  | failed hsame =>
    exact ⟨hsame.registry ▸ hknown, ⟨obj, hsame.registry ▸ hobj, hgeneration⟩, hlive⟩
  | created n m k obj' region now hsize hn hm hk hid =>
    have hhash := hrecords.fresh_hash hunique (hn.trans hm.le) hmem
    have hname : t.objectId ≠ obj'.objectId :=
      hid ▸ hrecords.fresh_id hunique hn (Dict.get?_eq_some.mp hobj)
    exact ⟨(Dict.get?_set_of_ne hhash).trans hknown,
      ⟨obj, (Dict.get?_set_of_ne hname).trans hobj, hgeneration⟩, hlive⟩
  | validated => exact ⟨hknown, ⟨obj, hobj, hgeneration⟩, hlive⟩
  | issued requested obj' issuer expiresAt s₁ hrequested hauthorised hgrant hsubset hexpiry hs₁ =>
    have hhash := hrecords.fresh_hash hunique hs₁.ticks hmem
    exact ⟨(Dict.get?_set_of_ne hhash).trans hknown, ⟨obj, hobj, hgeneration⟩, hlive⟩
  | @revoked o issuerRaw targetRaw obj' issuer target =>
    have hne : raw ≠ targetRaw := by
      rintro rfl
      exact hends (.revoked o issuerRaw)
    exact ⟨(Dict.get?_set_of_ne (hunique.hash.ne hne)).trans hknown, ⟨obj, hobj, hgeneration⟩,
      hlive⟩
  | @deleted o rawToken obj' token =>
    have hne : t.objectId ≠ o := by
      rintro rfl
      exact hends (.deleted rawToken)
    refine ⟨?_, ⟨obj, (Dict.get?_pop_of_ne hne).trans hobj, hgeneration⟩, hlive⟩
    rw [Dict.get?_eq_some, Dict.mem_filter]
    exact ⟨hmem, by simpa using hne⟩
  | closed => exact absurd .closed hends

theorem InForce.gone (h : InForce env raw t s) (hrecords : Records env s) (hunique : env.Unique)
    (heffect : Effect env s e s') (hends : Ends t.objectId raw e) : Gone env s' raw := by
  cases hends with
  | revoked o issuerRaw => exact .of_revoke hrecords hunique heffect
  | deleted rawToken => exact .of_delete hrecords hunique h.known rfl heffect
  | closed =>
    obtain ⟨m, hm, hhash⟩ := hrecords.drawn _ t (Dict.get?_eq_some.mp h.known)
    cases heffect with
    | closed =>
      refine ⟨fun n hn hraw => ?_, nofun⟩
      have hn : s.ticks ≤ n := hn
      have := hunique.token (hraw.trans (hunique.hash hhash))
      omega

/-- After any calls the token is in force, or gone if one of them took it out of force. -/
theorem InForce.run (h : InForce env raw t s) (hrecords : Records env s) (hunique : env.Unique)
    {later : List Event} (hrun : Run (Step env) s later s') :
    ((∀ e ∈ later, ¬ Ends t.objectId raw e) → InForce env raw t s') ∧
      ((∃ e ∈ later, Ends t.objectId raw e) → Gone env s' raw) := by
  suffices hall : Records env s' ∧
      ((∀ e ∈ later, ¬ Ends t.objectId raw e) → InForce env raw t s') ∧
      ((∃ e ∈ later, Ends t.objectId raw e) → Gone env s' raw) from hall.2
  refine hrun.history (I := fun later s' => Records env s' ∧
    ((∀ e ∈ later, ¬ Ends t.objectId raw e) → InForce env raw t s') ∧
    ((∃ e ∈ later, Ends t.objectId raw e) → Gone env s' raw)) ⟨hrecords, fun _ => h, by simp⟩ ?_
  rintro later e s₁ s₂ - ⟨hrecords, hforce, hgone⟩ hstep
  have heffect := perform_effect hstep
  refine ⟨hrecords.step hunique heffect, fun hnone => ?_, fun hsome => ?_⟩
  · obtain ⟨hbefore, hlast⟩ := List.forall_mem_append.mp hnone
    exact (hforce hbefore).step hrecords hunique heffect (hlast e (List.mem_singleton_self e))
  · by_cases hearlier : ∃ e ∈ later, Ends t.objectId raw e
    · exact (hgone hearlier).step hunique heffect
    · -- Nothing has happened to the token before, so it is the last call that ends it.
      obtain ⟨e', he', hends⟩ := hsome
      obtain he' | he' := List.mem_append.mp he'
      · exact absurd ⟨e', he', hends⟩ hearlier
      · rw [List.mem_singleton.mp he'] at hends
        have hnone : ∀ e ∈ later, ¬ Ends t.objectId raw e := fun e he hends =>
          hearlier ⟨e, he, hends⟩
        exact (hforce hnone).gone hrecords hunique heffect hends

/-- What `validate` asks of a token that is in force. -/
theorem InForce.validate_iff (h : InForce env raw t s) (hraw : raw ≠ "") (p : Permission) :
    (∃ r s', validate env t.objectId raw (.leaf (.str p.name)) s = .ok r s') ↔
      p ∈ t.permissions ∧ expired (env.time s.ticks) t.expiresAt = false := by
  obtain ⟨hknown, ⟨obj, hobj, hgeneration⟩, hlive⟩ := h
  constructor
  · rintro ⟨⟨obj', t'⟩, s', hrun⟩
    obtain ⟨hauthorised, hmem, -⟩ := validate_permission hrun
    cases hknown.symm.trans hauthorised.known
    exact ⟨hmem, hauthorised.unexpired⟩
  · rintro ⟨hmem, hunexpired⟩
    refine ⟨(obj, t), _, validate_ok.mpr ⟨[p.name], requiredSet_name p, ?_, rfl⟩⟩
    refine ⟨hraw, hobj, hknown, rfl, hlive, hunexpired, hgeneration.symm, ?_⟩
    intro name hname
    rw [List.mem_singleton.mp hname]
    exact mem_sortedNames.mpr hmem

/-- A token that was on record and not revoked is accepted later if and only if it carries the
permission, has not expired, and no call since then has revoked it, deleted its object or closed the
registry. -/
theorem accepted_iff (hunique : env.Unique) {before later : List Event} {s₀ : State}
    (hbefore : History env before s₀)
    (hknown : s₀.registry.tokens.get? (env.hashToken raw) = some t) (hlive : t.revoked = false)
    (hraw : raw ≠ "") (hlater : Run (Step env) s₀ later s) (p : Permission) :
    (∃ r s', validate env t.objectId raw (.leaf (.str p.name)) s = .ok r s') ↔
      p ∈ t.permissions ∧ expired (env.time s.ticks) t.expiresAt = false ∧
        ∀ e ∈ later, ¬ Ends t.objectId raw e := by
  have hrecords := (history_records hunique hbefore).1
  have hforce : InForce env raw t s₀ :=
    ⟨hknown, hrecords.owned _ t (Dict.get?_eq_some.mp hknown), hlive⟩
  obtain ⟨hkept, hgone⟩ := hforce.run hrecords hunique hlater
  by_cases hends : ∃ e ∈ later, Ends t.objectId raw e
  · constructor
    · rintro ⟨r, s', hrun⟩
      exact absurd hrun ((hgone hends).refused _ _ r)
    · rintro ⟨-, -, hnone⟩
      obtain ⟨e, he, hend⟩ := hends
      exact absurd hend (hnone e he)
  · have hnone : ∀ e ∈ later, ¬ Ends t.objectId raw e := fun e he hend => hends ⟨e, he, hend⟩
    rw [(hkept hnone).validate_iff hraw p]
    exact ⟨fun h => ⟨h.1, h.2, hnone⟩, fun h => ⟨h.1, h.2.1⟩⟩

end Steps

/-- The first token of the first object is accepted after a grant, and no more once it has been
revoked. -/
theorem accepted_iff_revoked :
    ((∃ r s', validate plainEnvironment (letters 'o' 0) (letters 't' 4)
        (.leaf (.str Permission.delete.name)) granterState = .ok r s') ↔
      Permission.delete ∈ allPermissions ∧ expired (plainEnvironment.time 9) none = false ∧
        ∀ e ∈ [grantGrant], ¬ Ends (letters 'o' 0) (letters 't' 4) e) ∧
    ((∃ r s', validate plainEnvironment (letters 'o' 0) (letters 't' 4)
        (.leaf (.str Permission.delete.name)) orphanState = .ok r s') ↔
      Permission.delete ∈ allPermissions ∧ expired (plainEnvironment.time 10) none = false ∧
        ∀ e ∈ [grantGrant, revokeFirst, deleteRefused],
          ¬ Ends (letters 'o' 0) (letters 't' 4) e) := by
  have hcreated : History plainEnvironment [createFirst] firstState := .single createFirst_step
  have hknown : firstState.registry.tokens.get? (letters 't' 4) = some firstToken := rfl
  have hgranted : Run (Step plainEnvironment) firstState [grantGrant] granterState :=
    .single grantGrant_step
  exact ⟨accepted_iff plainEnvironment_unique hcreated hknown rfl (letters_ne_empty 't' 4) hgranted
      .delete,
    accepted_iff plainEnvironment_unique hcreated hknown rfl (letters_ne_empty 't' 4)
      ((hgranted.snoc revokeFirst_step).snoc deleteRefused_step) .delete⟩

end Npb.Mstore
