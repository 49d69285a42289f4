import Mathlib.Data.List.Sort
import Npb.Mstore.Calls

/-! # The integrity of a registry

The tokens, the objects and their regions fit together in every state a registry reaches, whatever
is called of it (`history_integrity`), and what has been revoked or deleted stays so. -/

namespace Npb.Mstore
set_option autoImplicit false
open Effects

/-- Random text never repeats, and different tokens have different hashes. -/
structure Environment.Unique (env : Environment) : Prop where
  hash : Function.Injective env.hashToken
  token : Function.Injective env.tokenUrlsafe
  id : Function.Injective env.uuid4

/-- The objects and tokens, each under its own key. -/
structure Records (env : Environment) (s : State) : Prop where
  filed : ∀ h t, (h, t) ∈ s.registry.tokens.items → t.tokenHash = h
  owned : ∀ h t, (h, t) ∈ s.registry.tokens.items →
    ∃ obj, s.registry.objects.get? t.objectId = some obj ∧ obj.generation = t.generation
  drawn : ∀ h t, (h, t) ∈ s.registry.tokens.items →
    ∃ n < s.ticks, h = env.hashToken (env.tokenUrlsafe n)
  named : ∀ o obj, (o, obj) ∈ s.registry.objects.items →
    obj.objectId = o ∧ ∃ n < s.ticks, o = env.uuid4 n

def Registered (s : State) (region : ℕ) : Prop :=
  ∃ o obj, (o, obj) ∈ s.registry.objects.items ∧ obj.region = region

/-- Each region belongs to one object, or has been closed once. -/
structure Regions (s : State) : Prop where
  opened : ∀ o obj, (o, obj) ∈ s.registry.objects.items →
    openAt s.regions obj.region = true ∧ obj.region ∉ s.closed
  distinct : ∀ o obj o' obj', (o, obj) ∈ s.registry.objects.items →
    (o', obj') ∈ s.registry.objects.items → obj.region = obj'.region → o = o'
  released : ∀ i < s.regions.length, ¬ Registered s i →
    s.closed.count i = 1 ∧ openAt s.regions i = false
  bounded : ∀ i ∈ s.closed, i < s.regions.length

theorem openAt_lt {regions : List Region} {i : ℕ} (h : openAt regions i = true) :
    i < regions.length := by
  by_contra hlt
  unfold openAt at h
  rw [List.getElem?_eq_none (by omega)] at h
  cases h

theorem openAt_append {regions : List Region} {region : Region} {i : ℕ}
    (h : openAt regions i = true) : openAt (regions ++ [region]) i = true := by
  unfold openAt at *
  rwa [List.getElem?_append_left (openAt_lt h)]

section Steps
variable {env : Environment} {s s' : State} {e : Event}

theorem Records.object_id (h : Records env s) {o : String} {obj : ObjectRecord}
    (hobj : s.registry.objects.get? o = some obj) : obj.objectId = o :=
  (h.named o obj (Dict.get?_eq_some.mp hobj)).1

theorem Records.fresh_id (h : Records env s) (hunique : env.Unique) {n : ℕ} (hn : s.ticks ≤ n)
    {o : String} {obj : ObjectRecord} (hobj : (o, obj) ∈ s.registry.objects.items) :
    o ≠ env.uuid4 n := by
  intro ho
  obtain ⟨-, m, hm, hdrawn⟩ := h.named o obj hobj
  have hmn := hunique.id (hdrawn.symm.trans ho)
  omega

/-- A token drawn later is none of the known ones. -/
theorem Records.fresh_hash (h : Records env s) (hunique : env.Unique) {n : ℕ} (hn : s.ticks ≤ n)
    {k : String} {t : TokenRecord} (ht : (k, t) ∈ s.registry.tokens.items) :
    k ≠ env.hashToken (env.tokenUrlsafe n) := by
  intro hk
  obtain ⟨m, hm, hdrawn⟩ := h.drawn k t ht
  have hmn := hunique.token (hunique.hash (hdrawn.symm.trans hk))
  omega

theorem Records.later (h : Records env s) (hticks : s.ticks ≤ s'.ticks)
    (hregistry : s'.registry = s.registry) : Records env s' := by
  refine ⟨?_, ?_, ?_, ?_⟩
  · rw [hregistry]
    exact h.filed
  · rw [hregistry]
    exact h.owned
  · rw [hregistry]
    intro k t ht
    obtain ⟨n, hn, hk⟩ := h.drawn k t ht
    exact ⟨n, hn.trans_le hticks, hk⟩
  · rw [hregistry]
    intro o obj hobj
    obtain ⟨hid, n, hn, ho⟩ := h.named o obj hobj
    exact ⟨hid, n, hn.trans_le hticks, ho⟩

theorem Records.issue (h : Records env s) {o : String} {obj : ObjectRecord}
    (hobj : s.registry.objects.get? o = some obj) (permissions : Finset Permission) (now : ℚ)
    (expiresAt : Option Instant) {n : ℕ} (hn : n < s'.ticks) (hticks : s.ticks ≤ s'.ticks)
    (hregistry : s'.registry = ⟨s.registry.objects,
      s.registry.tokens.set (env.hashToken (env.tokenUrlsafe n))
        (newToken env (env.tokenUrlsafe n) obj permissions now expiresAt)⟩) : Records env s' := by
  have hid := h.object_id hobj
  refine ⟨?_, ?_, ?_, ?_⟩
  · rw [hregistry]
    intro k t ht
    obtain heq | ⟨ht, -⟩ := Dict.mem_set.mp ht
    · cases heq
      rfl
    · exact h.filed k t ht
  · rw [hregistry]
    intro k t ht
    obtain heq | ⟨ht, -⟩ := Dict.mem_set.mp ht
    · cases heq
      exact ⟨obj, by rwa [newToken, hid], rfl⟩
    · exact h.owned k t ht
  · rw [hregistry]
    intro k t ht
    obtain heq | ⟨ht, -⟩ := Dict.mem_set.mp ht
    · cases heq
      exact ⟨n, hn, rfl⟩
    · obtain ⟨m, hm, hk⟩ := h.drawn k t ht
      exact ⟨m, hm.trans_le hticks, hk⟩
  · rw [hregistry]
    intro o' obj' hobj'
    obtain ⟨hid', m, hm, ho⟩ := h.named o' obj' hobj'
    exact ⟨hid', m, hm.trans_le hticks, ho⟩

theorem Records.create (h : Records env s) (hunique : env.Unique) {obj : ObjectRecord} {n : ℕ}
    (hn : s.ticks ≤ n) (hlt : n < s'.ticks) (hid : obj.objectId = env.uuid4 n)
    (hregistry : s'.registry = ⟨s.registry.objects.set obj.objectId obj, s.registry.tokens⟩) :
    Records env s' := by
  refine ⟨?_, ?_, ?_, ?_⟩
  · rw [hregistry]
    exact h.filed
  · rw [hregistry]
    intro k t ht
    obtain ⟨obj', hobj', hgeneration⟩ := h.owned k t ht
    have hne := h.fresh_id hunique hn (Dict.get?_eq_some.mp hobj')
    rw [← hid] at hne
    exact ⟨obj', by rwa [Dict.get?_set_of_ne hne], hgeneration⟩
  · rw [hregistry]
    intro k t ht
    obtain ⟨m, hm, hk⟩ := h.drawn k t ht
    exact ⟨m, by omega, hk⟩
  · rw [hregistry]
    intro o obj' hobj'
    obtain heq | ⟨hobj', -⟩ := Dict.mem_set.mp hobj'
    · cases heq
      exact ⟨rfl, n, hlt, hid⟩
    · obtain ⟨hid', m, hm, ho⟩ := h.named o obj' hobj'
      exact ⟨hid', m, by omega, ho⟩

theorem Records.step (h : Records env s) (hunique : env.Unique) (heffect : Effect env s e s') :
    Records env s' := by
  cases heffect with
  | failed hsame => exact h.later hsame.ticks hsame.registry
  | created n m t obj region now hsize hn hm ht hid hregion hopen =>
    -- The object is registered first, then its token is issued.
    have hcreated : Records env
        ⟨⟨s.registry.objects.set obj.objectId obj, s.registry.tokens⟩, s.regions, s.closed, m⟩ :=
      h.create hunique hn hm hid rfl
    exact hcreated.issue Dict.get?_set_self allPermissions now none ht (Nat.le_of_lt ht) rfl
  | validated names obj token hnames hauthorised => exact h.later (Nat.le_succ _) rfl
  | issued requested obj issuer expiresAt s₁ hrequested hauthorised hgrant hsubset hexpiry hs₁ =>
    have hticks : s.ticks ≤ s₁.ticks + 2 := hs₁.ticks.trans (Nat.le_add_right _ _)
    exact h.issue hauthorised.registered requested _ expiresAt
      (Nat.lt_add_of_pos_right (by decide)) hticks rfl
  | revoked obj issuer target hauthorised hgrant htarget hbound hself =>
    have hmem := Dict.get?_eq_some.mp htarget
    have hlater : Records env ⟨s.registry, s.regions, s.closed, s.ticks + 1⟩ :=
      h.later (Nat.le_succ _) rfl
    refine ⟨?_, ?_, ?_, hlater.named⟩
    · intro k t ht
      obtain heq | ⟨ht, -⟩ := Dict.mem_set.mp ht
      · cases heq
        exact h.filed _ target hmem
      · exact h.filed k t ht
    · intro k t ht
      obtain heq | ⟨ht, -⟩ := Dict.mem_set.mp ht
      · cases heq
        exact h.owned _ target hmem
      · exact h.owned k t ht
    · intro k t ht
      obtain heq | ⟨ht, -⟩ := Dict.mem_set.mp ht
      · cases heq
        exact hlater.drawn _ target hmem
      · exact hlater.drawn k t ht
  | @deleted objectId rawToken obj token hauthorised hdelete =>
    have hlater : Records env ⟨s.registry, s.regions, s.closed, s.ticks + 1⟩ :=
      h.later (Nat.le_succ _) rfl
    refine ⟨?_, ?_, ?_, ?_⟩
    · intro k t ht
      exact h.filed k t (Dict.mem_filter.mp ht).1
    · intro k t ht
      obtain ⟨ht, hne⟩ := Dict.mem_filter.mp ht
      obtain ⟨obj', hobj', hgeneration⟩ := h.owned k t ht
      have hne' : t.objectId ≠ objectId := by simpa using hne
      exact ⟨obj', by rwa [Dict.get?_pop_of_ne hne'], hgeneration⟩
    · intro k t ht
      exact hlater.drawn k t (Dict.mem_filter.mp ht).1
    · intro o obj' hobj'
      exact hlater.named o obj' (Dict.mem_pop.mp hobj').1
  | closed =>
    refine ⟨?_, ?_, ?_, ?_⟩
    · intro k t ht
      cases ht
    · intro k t ht
      cases ht
    · intro k t ht
      cases ht
    · intro o obj hobj
      cases hobj

/-! ## Regions -/

theorem Regions.same (h : Regions s) (hobjects : s'.registry.objects = s.registry.objects)
    (hregions : s'.regions = s.regions) (hclosed : s'.closed = s.closed) : Regions s' := by
  refine ⟨?_, ?_, ?_, ?_⟩
  · rw [hobjects, hregions, hclosed]
    exact h.opened
  · rw [hobjects]
    exact h.distinct
  · rw [hregions, hclosed]
    intro i hi hfree
    refine h.released i hi ?_
    unfold Registered at *
    rwa [hobjects] at hfree
  · rw [hregions, hclosed]
    exact h.bounded

theorem Regions.create (h : Regions s) (obj : ObjectRecord) {region : Region}
    (hfresh : ∀ o obj', (o, obj') ∈ s.registry.objects.items → o ≠ obj.objectId)
    (hregion : obj.region = s.regions.length) (hopen : region.isOpen = true)
    (hobjects : s'.registry.objects = s.registry.objects.set obj.objectId obj)
    (hregions : s'.regions = s.regions ++ [region]) (hclosed : s'.closed = s.closed) :
    Regions s' := by
  have hnew : openAt (s.regions ++ [region]) obj.region = true := by
    rw [hregion, openAt, List.getElem?_append_right (Nat.le_refl _)]
    simpa using hopen
  refine ⟨?_, ?_, ?_, ?_⟩
  · rw [hobjects, hregions, hclosed]
    intro o obj' hobj'
    obtain heq | ⟨hobj', -⟩ := Dict.mem_set.mp hobj'
    · cases heq
      refine ⟨hnew, ?_⟩
      intro hmem
      have hlt := h.bounded _ hmem
      omega
    · obtain ⟨hopened, hmem⟩ := h.opened o obj' hobj'
      exact ⟨openAt_append hopened, hmem⟩
  · rw [hobjects]
    intro o obj₁ o' obj₂ hobj₁ hobj₂ hsame
    obtain heq | ⟨hobj₁, -⟩ := Dict.mem_set.mp hobj₁
    · cases heq
      obtain heq | ⟨hobj₂, -⟩ := Dict.mem_set.mp hobj₂
      · cases heq
        rfl
      · have hlt := openAt_lt (h.opened o' obj₂ hobj₂).1
        omega
    · obtain heq | ⟨hobj₂, -⟩ := Dict.mem_set.mp hobj₂
      · cases heq
        have hlt := openAt_lt (h.opened o obj₁ hobj₁).1
        omega
      · exact h.distinct o obj₁ o' obj₂ hobj₁ hobj₂ hsame
  · rw [hregions, hclosed]
    intro i hi hfree
    rw [List.length_append, List.length_singleton] at hi
    have hne : i ≠ s.regions.length := by
      intro heq
      apply hfree
      refine ⟨obj.objectId, obj, ?_, hregion.trans heq.symm⟩
      rw [hobjects]
      exact Dict.mem_set.mpr (.inl rfl)
    have hlt : i < s.regions.length := by omega
    have hfree' : ¬ Registered s i := by
      rintro ⟨o, obj', hobj', hi'⟩
      apply hfree
      refine ⟨o, obj', ?_, hi'⟩
      rw [hobjects]
      exact Dict.mem_set.mpr (.inr ⟨hobj', hfresh o obj' hobj'⟩)
    obtain ⟨hcount, hshut⟩ := h.released i hlt hfree'
    refine ⟨hcount, ?_⟩
    unfold openAt at *
    rwa [List.getElem?_append_left hlt]
  · rw [hregions, hclosed, List.length_append]
    intro i hi
    exact (h.bounded i hi).trans_le (Nat.le_add_right _ _)

/-- The regions of the objects that leave are closed, and only those. -/
theorem Regions.release (h : Regions s) {leaving : List ℕ} (hnodup : leaving.Nodup)
    (hleaving : ∀ i ∈ leaving, Registered s i)
    (hstay : ∀ o obj, (o, obj) ∈ s'.registry.objects.items ↔
      (o, obj) ∈ s.registry.objects.items ∧ obj.region ∉ leaving)
    (hregions : s'.regions = closeAll leaving s.regions)
    (hclosed : s'.closed = s.closed ++ leaving) : Regions s' := by
  refine ⟨?_, ?_, ?_, ?_⟩
  · rw [hregions, hclosed]
    intro o obj hobj
    obtain ⟨hobj, hkeep⟩ := (hstay o obj).mp hobj
    obtain ⟨hopened, hmem⟩ := h.opened o obj hobj
    rw [openAt_closeAll, hopened]
    simp [hkeep, hmem]
  · intro o obj o' obj' hobj hobj' hsame
    exact h.distinct o obj o' obj' ((hstay o obj).mp hobj).1 ((hstay o' obj').mp hobj').1 hsame
  · rw [hregions, hclosed]
    intro i hi hfree
    rw [length_closeAll] at hi
    rw [openAt_closeAll, List.count_append]
    by_cases hmem : i ∈ leaving
    · obtain ⟨o, obj, hobj, hi'⟩ := hleaving i hmem
      have hbefore : i ∉ s.closed := hi' ▸ (h.opened o obj hobj).2
      rw [List.count_eq_zero.mpr hbefore, List.count_eq_one_of_mem hnodup hmem]
      simp [hmem]
    · have hfree' : ¬ Registered s i := by
        rintro ⟨o, obj, hobj, hi'⟩
        exact hfree ⟨o, obj, (hstay o obj).mpr ⟨hobj, hi' ▸ hmem⟩, hi'⟩
      obtain ⟨hcount, hshut⟩ := h.released i hi hfree'
      rw [hcount, hshut, List.count_eq_zero.mpr hmem]
      simp
  · rw [hregions, hclosed, length_closeAll]
    intro i hi
    obtain hi | hi := List.mem_append.mp hi
    · exact h.bounded i hi
    · obtain ⟨o, obj, hobj, hi'⟩ := hleaving i hi
      exact hi' ▸ openAt_lt (h.opened o obj hobj).1

theorem Regions.step (h : Regions s) (hrecords : Records env s) (hunique : env.Unique)
    (heffect : Effect env s e s') : Regions s' := by
  cases heffect with
  | failed hsame => exact h.same (by rw [hsame.registry]) hsame.regions hsame.closed
  | created n m t obj region now hsize hn hm ht hid hregion hopen =>
    refine h.create obj (fun o obj' hobj' => ?_) hregion hopen rfl rfl rfl
    rw [hid]
    exact hrecords.fresh_id hunique hn hobj'
  | validated => exact h.same rfl rfl rfl
  | issued => exact h.same rfl rfl rfl
  | revoked => exact h.same rfl rfl rfl
  | @deleted objectId rawToken obj token hauthorised hdelete =>
    have hobj := Dict.get?_eq_some.mp hauthorised.registered
    refine h.release (List.nodup_singleton obj.region) ?_ ?_ rfl rfl
    · intro i hi
      rw [List.mem_singleton] at hi
      exact ⟨objectId, obj, hobj, hi.symm⟩
    · intro o obj'
      rw [List.mem_singleton]
      constructor
      · intro hmem
        obtain ⟨hmem, hne⟩ := Dict.mem_pop.mp hmem
        exact ⟨hmem, fun hsame => hne (h.distinct o obj' objectId obj hmem hobj hsame)⟩
      · intro hmem
        refine Dict.mem_pop.mpr ⟨hmem.1, ?_⟩
        intro ho
        have ho : o = objectId := ho
        subst ho
        exact hmem.2 (by rw [Dict.value_unique hmem.1 hobj])
  | closed =>
    refine h.release (Dict.nodup_map_values _ h.distinct) ?_ ?_ rfl rfl
    · intro i hi
      obtain ⟨obj, hobj, rfl⟩ := List.mem_map.mp hi
      obtain ⟨o, hobj⟩ := Dict.mem_values.mp hobj
      exact ⟨o, obj, hobj, rfl⟩
    · intro o obj
      constructor
      · intro hmem
        cases hmem
      · intro hmem
        exact absurd (List.mem_map_of_mem (Dict.mem_values.mpr ⟨o, hmem.1⟩)) hmem.2

end Steps

/-! ## What does not come back -/

/-- A token no record of which is in force, and that will not be drawn again. -/
structure Gone (env : Environment) (s : State) (raw : String) : Prop where
  spent : ∀ n, s.ticks ≤ n → env.tokenUrlsafe n ≠ raw
  dead : ∀ t, s.registry.tokens.get? (env.hashToken raw) = some t → t.revoked = true

section Gone
variable {env : Environment} {s s' : State} {e : Event} {raw : String}

theorem Gone.refused (h : Gone env s raw) (objectId : String) (required : Json)
    (r : ObjectRecord × TokenRecord) : validate env objectId raw required s ≠ .ok r s' := by
  intro hrun
  obtain ⟨names, -, hauthorised, -⟩ := validate_ok.mp hrun
  have hdead := h.dead _ hauthorised.known
  rw [hauthorised.live] at hdead
  cases hdead

theorem Gone.later (h : Gone env s raw) (hticks : s.ticks ≤ s'.ticks)
    (htokens : ∀ t, s'.registry.tokens.get? (env.hashToken raw) = some t →
      s.registry.tokens.get? (env.hashToken raw) = some t ∨ t.revoked = true) :
    Gone env s' raw := by
  refine ⟨fun n hn => h.spent n (hticks.trans hn), ?_⟩
  intro t ht
  obtain ht | ht := htokens t ht
  · exact h.dead t ht
  · exact ht

theorem Gone.issue (h : Gone env s raw) (hunique : env.Unique) {n : ℕ} (hn : s.ticks ≤ n)
    (t : TokenRecord) :
    (s.registry.tokens.set (env.hashToken (env.tokenUrlsafe n)) t).get? (env.hashToken raw) =
      s.registry.tokens.get? (env.hashToken raw) := by
  refine Dict.get?_set_of_ne ?_
  intro hhash
  exact h.spent n hn (hunique.hash hhash).symm

theorem Gone.step (h : Gone env s raw) (hunique : env.Unique) (heffect : Effect env s e s') :
    Gone env s' raw := by
  refine h.later heffect.ticks fun t ht => ?_
  cases heffect with
  | failed hsame =>
    rw [hsame.registry] at ht
    exact .inl ht
  | created n m t' obj region now hsize hn hm =>
    have hset := h.issue hunique (hn.trans (Nat.le_of_lt hm))
      (newToken env (env.tokenUrlsafe m) obj allPermissions now none)
    exact .inl (hset ▸ ht)
  | validated => exact .inl ht
  | issued requested obj issuer expiresAt s₁ hrequested h' hgrant hsubset hexpiry hs₁ =>
    have hset := h.issue hunique hs₁.ticks
      (newToken env (env.tokenUrlsafe s₁.ticks) obj requested (env.time (s₁.ticks + 1)) expiresAt)
    exact .inl (hset ▸ ht)
  | revoked obj issuer target =>
    rw [Dict.get?_set] at ht
    split at ht
    · cases ht
      exact .inr rfl
    · exact .inl ht
  | deleted obj token =>
    have hmem := Dict.get?_eq_some.mp ht
    exact .inl (Dict.get?_eq_some.mpr (Dict.mem_filter.mp hmem).1)
  | closed => cases ht

theorem Gone.of_revoke (hrecords : Records env s) (hunique : env.Unique)
    {objectId issuerRaw : String}
    (heffect : Effect env s ⟨.revokeToken objectId issuerRaw raw, .ok .done⟩ s') :
    Gone env s' raw := by
  cases heffect with
  | revoked obj issuer target hauthorised hgrant htarget =>
    obtain ⟨m, hm, hhash⟩ := hrecords.drawn _ target (Dict.get?_eq_some.mp htarget)
    constructor
    · intro n hn hraw
      have hn : s.ticks + 1 ≤ n := hn
      have hnm := hunique.token (hraw.trans (hunique.hash hhash))
      omega
    · intro t ht
      rw [Dict.get?_set_self] at ht
      cases ht
      rfl

theorem Gone.of_delete (hrecords : Records env s) (hunique : env.Unique)
    {objectId rawToken : String} {token : TokenRecord}
    (htoken : s.registry.tokens.get? (env.hashToken raw) = some token)
    (hbound : token.objectId = objectId)
    (heffect : Effect env s ⟨.deleteObject objectId rawToken, .ok .done⟩ s') :
    Gone env s' raw := by
  cases heffect with
  | deleted obj deleter =>
    obtain ⟨m, hm, hhash⟩ := hrecords.drawn _ token (Dict.get?_eq_some.mp htoken)
    constructor
    · intro n hn hraw
      have hn : s.ticks + 1 ≤ n := hn
      have hnm := hunique.token (hraw.trans (hunique.hash hhash))
      omega
    · intro t ht
      rw [Dict.get?_filter, htoken, Option.filter_eq_some_iff] at ht
      obtain ⟨heq, hkept⟩ := ht
      cases heq
      simp [hbound] at hkept

end Gone

/-! ## Every history -/

/-- What holds of a registry after the given calls. -/
structure Sound (env : Environment) (events : List Event) (s : State) : Prop where
  filed : ∀ h t, (h, t) ∈ s.registry.tokens.items → t.tokenHash = h ∧
    ∃ obj, s.registry.objects.get? t.objectId = some obj ∧ obj.generation = t.generation
  neverStale : ∀ objectId raw required s', validate env objectId raw required s ≠
    .error (authenticationError "token belongs to a stale object generation") s'
  opened : ∀ o obj, s.registry.objects.get? o = some obj → openAt s.regions obj.region = true
  closedOnce : ∀ i < s.regions.length, ¬ Registered s i → s.closed.count i = 1
  raising : ∀ e s' failure, Step env s e s' → e.outcome = .error failure →
    s'.registry = s.registry
  revoked : ∀ before objectId issuerRaw raw later,
    events = before ++ ⟨.revokeToken objectId issuerRaw raw, .ok .done⟩ :: later →
    ∀ objectId' required r s', validate env objectId' raw required s ≠ .ok r s'
  deleted : ∀ before objectId rawToken later,
    events = before ++ ⟨.deleteObject objectId rawToken, .ok .done⟩ :: later →
    ∀ raw s₀ token, History env before s₀ →
      s₀.registry.tokens.get? (env.hashToken raw) = some token → token.objectId = objectId →
      ∀ objectId' required r s', validate env objectId' raw required s ≠ .ok r s'

section Histories
variable {env : Environment} {events : List Event} {s s' : State}

theorem step_functional (e : Event) (s s' s'' : State) (h : Step env s e s')
    (h' : Step env s e s'') : s' = s'' := by
  unfold Step at h h'
  rw [h] at h'
  cases hout : e.outcome with
  | ok answer =>
    rw [hout] at h'
    cases h'
    rfl
  | error failure =>
    rw [hout] at h'
    cases h'
    rfl

theorem history_records (hunique : env.Unique) (h : History env events s) :
    Records env s ∧ Regions s := by
  refine h.invariant (I := fun s => Records env s ∧ Regions s) ?_ ⟨?_, ?_⟩
  · intro e s' s'' hI hstep
    have heffect := perform_effect hstep
    exact ⟨hI.1.step hunique heffect, hI.2.step hI.1 hunique heffect⟩
  · refine ⟨?_, ?_, ?_, ?_⟩
    · intro k t ht
      cases ht
    · intro k t ht
      cases ht
    · intro k t ht
      cases ht
    · intro o obj hobj
      cases hobj
  · refine ⟨?_, ?_, ?_, ?_⟩
    · intro o obj hobj
      cases hobj
    · intro o obj o' obj' hobj
      cases hobj
    · intro i hi
      cases hi
    · intro i hi
      cases hi

theorem Gone.run {raw : String} (h : Gone env s raw) (hunique : env.Unique)
    (hrun : Run (Step env) s events s') : Gone env s' raw :=
  hrun.invariant (I := fun s => Gone env s raw)
    (fun _ _ _ hgone hstep => hgone.step hunique (perform_effect hstep)) h

/-- The integrity of a registry, in every state it can reach. -/
theorem history_integrity (hunique : env.Unique) (h : History env events s) :
    Sound env events s := by
  obtain ⟨hrecords, hregions⟩ := history_records hunique h
  refine ⟨?_, ?_, ?_, ?_, ?_, ?_, ?_⟩
  · intro k t ht
    exact ⟨hrecords.filed k t ht, hrecords.owned k t ht⟩
  · intro objectId raw required s' hstale
    obtain ⟨obj, token, hobj, htoken, hbound, hne⟩ := validate_stale hstale
    obtain ⟨obj', hobj', hgeneration⟩ := hrecords.owned _ token (Dict.get?_eq_some.mp htoken)
    rw [hbound, hobj] at hobj'
    cases hobj'
    exact hne hgeneration.symm
  · intro o obj hobj
    exact (hregions.opened o obj (Dict.get?_eq_some.mp hobj)).1
  · intro i hi hfree
    exact (hregions.released i hi hfree).1
  · intro e s' failure hstep hout
    obtain ⟨action, outcome⟩ := e
    cases hout
    exact (perform_safe action _ _ _ hstep).registry
  · intro before objectId issuerRaw raw later hevents objectId' required r s' hvalidate
    subst hevents
    obtain ⟨s₁, s₂, hbefore, hstep, hlater⟩ := h.split_cons
    have hgone := Gone.of_revoke (history_records hunique hbefore).1 hunique (perform_effect hstep)
    exact (hgone.run hunique hlater).refused objectId' required r hvalidate
  · intro before objectId rawToken later hevents raw s₀ token hbefore htoken hbound objectId'
      required r s' hvalidate
    subst hevents
    obtain ⟨s₁, s₂, hbefore', hstep, hlater⟩ := h.split_cons
    cases hbefore.functional step_functional hbefore'
    have hgone := Gone.of_delete (history_records hunique hbefore).1 hunique htoken hbound
      (perform_effect hstep)
    exact (hgone.run hunique hlater).refused objectId' required r hvalidate

end Histories

/-! ## A small environment -/

/-- Text of `n + 1` copies of a letter. -/
def letters (c : Char) (n : ℕ) : String := String.ofList (List.replicate (n + 1) c)

theorem letters_injective (c : Char) : Function.Injective (letters c) := by
  intro m n h
  have hlist := congrArg (fun s : String => s.toList.length) h
  simpa [letters] using hlist

theorem letters_ne_empty (c : Char) (n : ℕ) : letters c n ≠ "" := by
  intro h
  have hlist := congrArg String.toList h
  simp [letters] at hlist

/-- `repr` of a scalar that is no float. -/
def plainRepr : Json → String
  | .leaf .none => "None"
  | .leaf (.bool b) => if b then "True" else "False"
  | .leaf (.int i) => toString i
  | .leaf (.str s) => pyRepr s
  | _ => ""

/-- `repr(sorted(values))` of strings. -/
def plainSorted (values : List Scalar) : Except PyError String :=
  match values.mapM fun value => match value with
    | .str s => some s
    | _ => none with
  | some names =>
    .ok ("[" ++ String.intercalate ", " ((names.insertionSort (· ≤ ·)).map pyRepr) ++ "]")
  | none => .error (.typeError "'<' not supported between instances of different types")

theorem plainSorted_one (s : String) : plainSorted [.str s] = .ok ("[" ++ pyRepr s ++ "]") := rfl

/-- The float that has the value of a fraction whose denominator is a power of two. -/
def plainFloat : Instant → PyFloat
  | .nan => .nan
  | .inf negative => .inf negative
  | .finite q => .finite (q.num < 0) q.num.natAbs (-(q.den.log2 : ℤ))

/-- A clock that ticks once for each question, and an operating system that never refuses. -/
def plainEnvironment : Environment where
  platform := .linux
  time n := n
  uuid4 := letters 'o'
  tokenUrlsafe := letters 't'
  tokenHex := letters 'x'
  hashToken raw := raw
  memfdCreate n _ := .ok n
  ftruncate _ _ _ := .ok ()
  openReadOnly n _ := .ok n
  dup n _ := .ok n
  mmap _ _ _ := .ok ()
  intOfStr := String.toInt?
  strOf value := some (plainRepr value)
  repr := plainRepr
  sortedRepr := plainSorted
  float := plainFloat

theorem plainEnvironment_unique : plainEnvironment.Unique :=
  ⟨Function.injective_id, letters_injective 't', letters_injective 'o'⟩

/-- The object that the first call creates. -/
def firstObject : ObjectRecord :=
  ⟨letters 'o' 0, 8, 0, 1, .leaf .none, .leaf .none, .leaf (.str "C"), .dict [], 3⟩

def createFirst : Event :=
  ⟨.createObject 8 (.leaf .none) (.leaf .none) (.leaf (.str "C")) (.dict []),
    .ok (.created firstObject (letters 't' 4))⟩

/-- The registry with its first object and the token for it. -/
def firstState : State :=
  ⟨⟨Dict.empty.set (letters 'o' 0) firstObject,
    Dict.empty.set (letters 't' 4)
      (newToken plainEnvironment (letters 't' 4) firstObject allPermissions 5 none)⟩,
    [.memfd 1 8 ("mstore-" ++ letters 'o' 0)], [], 6⟩

theorem createFirst_step : Step plainEnvironment .init createFirst firstState := by
  unfold Step createFirst
  show perform plainEnvironment _ State.init = _
  rfl

/-- A token that may grant, and nothing else. -/
def grantGrant : Event where
  action := .issueToken (letters 'o' 0) (letters 't' 4) (.list [.leaf (.str "grant")]) (.leaf .none)
  outcome := .ok (.issued (letters 't' 7))

/-- With it the first token of the object is revoked. -/
def revokeFirst : Event where
  action := .revokeToken (letters 'o' 0) (letters 't' 7) (letters 't' 4)
  outcome := .ok .done

def firstToken : TokenRecord :=
  newToken plainEnvironment (letters 't' 4) firstObject allPermissions 5 none

def granterToken : TokenRecord :=
  newToken plainEnvironment (letters 't' 7) firstObject (closure [.grant].toFinset) 8 none

def granterState : State :=
  ⟨{ firstState.registry with
      tokens := firstState.registry.tokens.set (letters 't' 7) granterToken },
    firstState.regions, [], 9⟩

def orphanState : State :=
  ⟨{ granterState.registry with
      tokens := granterState.registry.tokens.set (letters 't' 4)
        { firstToken with revoked := true } },
    firstState.regions, [], 10⟩

theorem grantGrant_step : Step plainEnvironment firstState grantGrant granterState := by
  have hauthorised : Authorised plainEnvironment firstState (letters 'o' 0) (letters 't' 4)
      ["grant"] firstObject firstToken :=
    ⟨letters_ne_empty 't' 4, Dict.get?_set_self, Dict.get?_set_self, rfl, rfl, rfl, rfl,
      by decide⟩
  have hrequested : normalizePermissions plainEnvironment.sortedRepr
      (.list [.leaf (.str "grant")]) = .ok (closure [.grant].toFinset) := rfl
  have hexpiry : expiryOf plainEnvironment (.leaf .none) none { firstState with ticks := 7 } =
      .ok none { firstState with ticks := 7 } := rfl
  exact issueToken_run hrequested hauthorised (by decide) hexpiry

theorem revokeFirst_step : Step plainEnvironment granterState revokeFirst orphanState := by
  have hauthorised : Authorised plainEnvironment granterState (letters 'o' 0) (letters 't' 7)
      ["grant"] firstObject granterToken :=
    ⟨letters_ne_empty 't' 7, Dict.get?_set_self, Dict.get?_set_self, rfl, rfl, rfl, rfl,
      by decide⟩
  have hne : letters 't' 4 ≠ letters 't' 7 := fun h => by simpa using letters_injective 't' h
  have htarget : granterState.registry.tokens.get? (letters 't' 4) = some firstToken :=
    (Dict.get?_set_of_ne hne).trans Dict.get?_set_self
  exact revokeToken_run hauthorised htarget rfl fun hself => hne hself.2

/-- The creator revokes the token it has granted. -/
def revokeGranter : Event where
  action := .revokeToken (letters 'o' 0) (letters 't' 4) (letters 't' 7)
  outcome := .ok .done

theorem revokeGranter_step : Step plainEnvironment granterState revokeGranter
    ⟨{ granterState.registry with
        tokens := granterState.registry.tokens.set (letters 't' 7)
          { granterToken with revoked := true } },
      firstState.regions, [], 10⟩ := by
  have hne : letters 't' 4 ≠ letters 't' 7 := fun h => by simpa using letters_injective 't' h
  have hauthorised : Authorised plainEnvironment granterState (letters 'o' 0) (letters 't' 4)
      ["grant"] firstObject firstToken :=
    ⟨letters_ne_empty 't' 4, Dict.get?_set_self,
      (Dict.get?_set_of_ne hne).trans Dict.get?_set_self, rfl, rfl, rfl, rfl, by decide⟩
  exact revokeToken_run hauthorised Dict.get?_set_self rfl fun hself => hne hself.2.symm

/-- The first token is of no use any more. -/
def deleteRefused : Event where
  action := .deleteObject (letters 'o' 0) (letters 't' 4)
  outcome := .error (.mstore .tokenRevoked "token has been revoked")

theorem deleteRefused_step : Step plainEnvironment orphanState deleteRefused orphanState := by
  unfold Step deleteRefused
  show perform plainEnvironment _ orphanState = _
  rfl

/-- An object, a delegate that revokes its creator, and a call that fails for it. -/
theorem history_integrity_revoked :
    Sound plainEnvironment [createFirst, grantGrant, revokeFirst, deleteRefused] orphanState :=
  history_integrity plainEnvironment_unique ((((Run.single createFirst_step).snoc
    grantGrant_step).snoc revokeFirst_step).snoc deleteRefused_step)

end Npb.Mstore
