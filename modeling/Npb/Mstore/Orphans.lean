import Npb.Mstore.Integrity

/-! # Objects that nobody can delete

Every object starts with a token that may delete it and never expires. Only a revocation can take
the last such token away, and `RevokesLast` says which ones do: `revoke_token` protects a token
with all permissions from itself, but from no other token (`orphans_iff`). -/

namespace Npb.Mstore
set_option autoImplicit false
open Effects

/-- A token with which its object can always be deleted. -/
structure Permanent (t : TokenRecord) : Prop where
  live : t.revoked = false
  deletes : .delete ∈ t.permissions
  endless : t.expiresAt = none

/-- Every registered object can still be deleted. -/
def NoOrphan (s : State) : Prop :=
  ∀ o obj, s.registry.objects.get? o = some obj →
    ∃ h t, (h, t) ∈ s.registry.tokens.items ∧ t.objectId = o ∧ Permanent t

/-- A revocation that passes the checks of `revoke_token`, and whose target is the only permanent
token of its object. -/
structure RevokesLast (env : Environment) (s : State) (objectId issuerRaw targetRaw : String)
    (obj : ObjectRecord) (issuer target : TokenRecord) : Prop where
  authorised : Authorised env s objectId issuerRaw ["grant"] obj issuer
  known : s.registry.tokens.get? (env.hashToken targetRaw) = some target
  bound : target.objectId = objectId
  unguarded : ¬ (target.permissions = allPermissions ∧ targetRaw = issuerRaw)
  permanent : Permanent target
  last : ∀ h t, (h, t) ∈ s.registry.tokens.items → t.objectId = objectId → Permanent t →
    h = env.hashToken targetRaw

/-- The call takes the last permanent token of an object away. -/
def Orphans (env : Environment) (s : State) (action : Action) : Prop :=
  ∃ objectId issuerRaw targetRaw obj issuer target,
    action = .revokeToken objectId issuerRaw targetRaw ∧
    RevokesLast env s objectId issuerRaw targetRaw obj issuer target

section Steps
variable {env : Environment} {events : List Event} {e : Event} {s s' : State}

/-- A step that takes no permanent token away keeps every object deletable. -/
theorem NoOrphan.of_tokens (h : NoOrphan s)
    (hobjects : ∀ o obj, s'.registry.objects.get? o = some obj →
      (∃ obj', s.registry.objects.get? o = some obj') ∨
      ∃ k t, (k, t) ∈ s'.registry.tokens.items ∧ t.objectId = o ∧ Permanent t)
    (htokens : ∀ o obj k t, s'.registry.objects.get? o = some obj →
      (k, t) ∈ s.registry.tokens.items → t.objectId = o → Permanent t →
      ∃ k' t', (k', t') ∈ s'.registry.tokens.items ∧ t'.objectId = o ∧ Permanent t') :
    NoOrphan s' := by
  intro o obj hobj
  obtain ⟨obj', hobj'⟩ | hnew := hobjects o obj hobj
  · obtain ⟨k, t, ht, hbound, hpermanent⟩ := h o obj' hobj'
    exact htokens o obj k t hobj ht hbound hpermanent
  · exact hnew

theorem NoOrphan.step (h : NoOrphan s) (hrecords : Records env s) (hunique : env.Unique)
    (heffect : Effect env s e s') (hkeeps : ¬ Orphans env s e.action) : NoOrphan s' := by
  cases heffect with
  | failed hsame =>
    intro o obj hobj
    rw [hsame.registry] at hobj ⊢
    exact h o obj hobj
  | created n m t obj region now hsize hn hm hlt hid =>
    refine h.of_tokens ?_ ?_
    · intro o obj' hobj'
      rw [Dict.get?_set] at hobj'
      by_cases ho : o = obj.objectId
      · refine .inr ⟨_, _, Dict.mem_set.mpr (.inl rfl), ho.symm, rfl, ?_, rfl⟩
        exact mem_allPermissions .delete
      · rw [if_neg ho] at hobj'
        exact .inl ⟨obj', hobj'⟩
    · intro o obj' k t' _ ht' hbound hpermanent
      have hfresh := hrecords.fresh_hash hunique (hn.trans (Nat.le_of_lt hm)) ht'
      exact ⟨k, t', Dict.mem_set.mpr (.inr ⟨ht', hfresh⟩), hbound, hpermanent⟩
  | validated => exact h
  | issued requested obj issuer expiresAt s₁ hrequested hauthorised hgrant hsubset hexpiry hs₁ =>
    refine h.of_tokens (fun o obj' hobj' => .inl ⟨obj', hobj'⟩) ?_
    intro o obj' k t _ ht hbound hpermanent
    have hfresh := hrecords.fresh_hash hunique hs₁.ticks ht
    exact ⟨k, t, Dict.mem_set.mpr (.inr ⟨ht, hfresh⟩), hbound, hpermanent⟩
  | @revoked objectId issuerRaw targetRaw obj issuer target hauthorised hgrant htarget htargetBound
      hself =>
    refine h.of_tokens (fun o obj' hobj' => .inl ⟨obj', hobj'⟩) ?_
    intro o obj' k t _ ht hbound hpermanent
    by_cases hk : k = env.hashToken targetRaw
    · -- The target itself is permanent: some other token of its object has to be.
      subst hk
      have hsame : t = target := by
        rw [Dict.get?_eq_some.mpr ht] at htarget
        exact Option.some.inj htarget
      subst hsame
      have hother : ∃ k t', (k, t') ∈ s.registry.tokens.items ∧ t'.objectId = objectId ∧
          Permanent t' ∧ k ≠ env.hashToken targetRaw := by
        by_contra hnone
        refine hkeeps ⟨objectId, issuerRaw, targetRaw, obj, issuer, t, rfl, hauthorised, htarget,
          htargetBound, hself, hpermanent, ?_⟩
        intro k t' ht' hbound' hpermanent'
        by_contra hne
        exact hnone ⟨k, t', ht', hbound', hpermanent', hne⟩
      obtain ⟨k, t', ht', hbound', hpermanent', hne⟩ := hother
      refine ⟨k, t', Dict.mem_set.mpr (.inr ⟨ht', hne⟩), ?_, hpermanent'⟩
      rw [hbound', ← htargetBound, hbound]
    · exact ⟨k, t, Dict.mem_set.mpr (.inr ⟨ht, hk⟩), hbound, hpermanent⟩
  | @deleted objectId rawToken obj token hauthorised =>
    refine h.of_tokens ?_ ?_
    · intro o obj' hobj'
      have hmem := Dict.mem_pop.mp (Dict.get?_eq_some.mp hobj')
      exact .inl ⟨obj', Dict.get?_eq_some.mpr hmem.1⟩
    · intro o obj' k t hobj' ht hbound hpermanent
      have hmem := Dict.mem_pop.mp (Dict.get?_eq_some.mp hobj')
      refine ⟨k, t, Dict.mem_filter.mpr ⟨ht, ?_⟩, hbound, hpermanent⟩
      simpa [hbound] using hmem.2
  | closed =>
    intro o obj hobj
    cases hobj

theorem Orphans.orphan (h : Orphans env s e.action) (hstep : Step env s e s') : ¬ NoOrphan s' := by
  obtain ⟨objectId, issuerRaw, targetRaw, obj, issuer, target, haction, hlast⟩ := h
  obtain ⟨action, outcome⟩ := e
  cases haction
  have hrun := revokeToken_run hlast.authorised hlast.known hlast.bound hlast.unguarded
  unfold Step at hstep
  rw [hrun] at hstep
  cases outcome with
  | error failure => cases hstep
  | ok answer =>
    cases hstep
    intro hnone
    obtain ⟨k, t, ht, hbound, hpermanent⟩ := hnone objectId obj hlast.authorised.registered
    obtain heq | ⟨ht, hne⟩ := Dict.mem_set.mp ht
    · cases heq
      exact absurd hpermanent.live (by simp)
    · exact hne (hlast.last k t ht hbound hpermanent)

/-- In a run every object stays deletable if and only if no call of it revokes the last permanent
token of an object. -/
theorem orphans_iff (hunique : env.Unique) (hrun : History env events s) :
    (∀ before s₀, before <+: events → History env before s₀ → NoOrphan s₀) ↔
      ∀ before e later s₀, events = before ++ e :: later → History env before s₀ →
        ¬ Orphans env s₀ e.action := by
  constructor
  · intro hnone before e later s₀ hevents hbefore horphans
    subst hevents
    obtain ⟨s₁, s₂, hbefore', hstep, -⟩ := hrun.split_cons
    cases hbefore.functional step_functional hbefore'
    have hprefix : before ++ [e] <+: before ++ e :: later := by
      exact ⟨later, by simp⟩
    exact horphans.orphan hstep (hnone _ s₂ hprefix (hbefore.snoc hstep))
  · intro hkeeps before s₀ hprefix hbefore
    obtain ⟨rest, hevents⟩ := hprefix
    have hall : ∀ past e future s₁, before = past ++ e :: future → History env past s₁ →
        ¬ Orphans env s₁ e.action := by
      intro past e future s₁ hpast
      refine hkeeps past e (future ++ rest) s₁ ?_
      rw [← hevents, hpast]
      simp
    clear hevents hkeeps hrun
    induction hbefore with
    | nil =>
      intro o obj hobj
      cases hobj
    | @snoc past e s₁ s₂ hpast hstep ih =>
      have hsafe : NoOrphan s₁ := by
        apply ih
        intro past' e' future s₃ heq
        refine hall past' e' (future ++ [e]) s₃ ?_
        rw [heq]
        simp
      have hkeeps := hall past e [] s₁ rfl hpast
      exact hsafe.step (history_records hunique hpast).1 hunique (perform_effect hstep) hkeeps

end Steps

/-! ## A delegate that revokes its creator -/

/-- The object is left without a token that could delete it. -/
theorem granter_orphans : ¬ ∀ (env : Environment) (events : List Event) (s : State), env.Unique →
    Monotone env.time → History env events s → NoOrphan s := by
  intro h
  have hmono : Monotone plainEnvironment.time := fun m n hmn => Nat.cast_le.mpr hmn
  have hrun : History plainEnvironment [createFirst, grantGrant, revokeFirst] orphanState :=
    ((Run.single createFirst_step).snoc grantGrant_step).snoc revokeFirst_step
  have hnone := h plainEnvironment _ orphanState plainEnvironment_unique hmono hrun
  obtain ⟨k, t, ht, -, hpermanent⟩ := hnone (letters 'o' 0) firstObject Dict.get?_set_self
  obtain heq | ⟨ht, hfirst⟩ := Dict.mem_set.mp ht
  · cases heq
    exact absurd hpermanent.live (by simp)
  obtain heq | ⟨ht, -⟩ := Dict.mem_set.mp ht
  · cases heq
    exact absurd hpermanent.deletes (by decide)
  obtain heq | ⟨ht, -⟩ := Dict.mem_set.mp ht
  · cases heq
    exact hfirst rfl
  · cases ht

/-- The same with the delegate revoked by its creator, which keeps its own token. -/
theorem orphans_iff_revoked :
    (∀ before s₀, before <+: [createFirst, grantGrant, revokeGranter] →
      History plainEnvironment before s₀ → NoOrphan s₀) ↔
      ∀ before e later s₀, [createFirst, grantGrant, revokeGranter] = before ++ e :: later →
        History plainEnvironment before s₀ → ¬ Orphans plainEnvironment s₀ e.action :=
  orphans_iff plainEnvironment_unique
    (((Run.single createFirst_step).snoc grantGrant_step).snoc revokeGranter_step)

end Npb.Mstore
