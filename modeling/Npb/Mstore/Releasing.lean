import Npb.Foundations.Custody
import Npb.Mstore.Opening
import Npb.Mstore.Shutdown

/-! # Releasing the memory of a server

Every open region is in somebody's hands: that of a registered object, of the worker that is about
to register or to close it, or of `Registry.close`. When all threads have ended, what is left open
are the regions that workers have registered after `Registry.close` had emptied the registry, at
most one for each connection (`shutdown_releases`). -/

namespace Npb.Mstore.Daemon
set_option autoImplicit false
open Effects

variable {P : Type}

/-! ## In whose hands a region is -/

inductive Owner where
  | object (objectId : String)
  | worker (conn : ℕ)
  | server

/-- Who has the regions of an owner when the registry has been emptied. -/
def Owner.cleared : Owner → Owner
  | .object _ => .server
  | .worker conn => .worker conn
  | .server => .server

def Place.region? : Place → Option ℕ
  | .creating _ _ _ _ _ _ region => some region
  | .removed obj => some obj.region
  | _ => none

/-- The id of the object that is about to be registered. -/
def Place.objectId? : Place → Option String
  | .creating _ _ _ _ _ objectId _ => some objectId
  | _ => none

def Main.regions : Main → List ℕ
  | .closing objects => objects.map ObjectRecord.region
  | _ => []

def Server.Holds (s : Server P) : Owner → ℕ → Prop
  | .object objectId, region =>
    ∃ obj, s.store.registry.objects.get? objectId = some obj ∧ obj.region = region
  | .worker conn, region => (s.worker conn).region? = some region
  | .server, region => region ∈ s.main.regions

/-- Each open region has its holder, and ids do not clash. -/
structure Kept (env : Environment) (s : Server P) : Prop where
  custody : Custody s.Holds fun region => openAt s.store.regions region = true
  distinct : s.main.regions.Nodup
  drawn : ∀ objectId obj, s.store.registry.objects.get? objectId = some obj →
    ∃ n < s.store.ticks, objectId = env.uuid4 n
  chosen : ∀ conn objectId, (s.worker conn).objectId? = some objectId →
    (∃ n < s.store.ticks, objectId = env.uuid4 n) ∧
      s.store.registry.objects.get? objectId = none
  apart : ∀ conn conn' objectId, (s.worker conn).objectId? = some objectId →
    (s.worker conn').objectId? = some objectId → conn = conn'

theorem Kept.new (env : Environment) : Kept env (Server.new : Server P) where
  custody := by
    refine ⟨fun a r ha => ?_, fun r hr => ?_, fun a b r ha => ?_⟩
    · cases a with
      | object o =>
        obtain ⟨obj, hobj, -⟩ := ha
        cases hobj
      | worker c => cases ha
      | server => cases ha
    · cases hr
    · cases a with
      | object o =>
        obtain ⟨obj, hobj, -⟩ := ha
        cases hobj
      | worker c => cases ha
      | server => cases ha
  distinct := .nil
  drawn o obj hobj := by cases hobj
  chosen c o ho := by cases ho
  apart c c' o ho := by cases ho

/-! ## What the calls do -/

section Calls
variable {env : Environment} {s s' : State}

theorem allocateRegion_ok {size : ℤ} {objectId : String} {region : ℕ}
    (h : allocateRegion env size s = .ok (objectId, region) s') :
    objectId = env.uuid4 s.ticks ∧ region = s.regions.length ∧ s.ticks < s'.ticks ∧
      s'.registry = s.registry ∧ ∃ new : Region, new.isOpen = true ∧
        s'.regions = s.regions ++ [new] := by
  unfold allocateRegion at h
  rw [bind_ok (ask_run env.uuid4 s), bind_eq_ok] at h
  obtain ⟨new, s₁, hcreate, h⟩ := h
  have hsame := (createRegion_quiet size (env.uuid4 s.ticks)).unchanged hcreate
  have hregions : s₁.regions = s.regions := hsame.regions
  have hticks : s.ticks + 1 ≤ s₁.ticks := hsame.ticks
  cases h
  refine ⟨rfl, by rw [hregions], hticks, hsame.registry, new, createRegion_open hcreate, ?_⟩
  rw [hregions]

theorem keeps_ticks {action : Action} (h : Descriptors.Keeps action) {answer : Answer}
    (hcall : perform env action s = .ok answer s') : s.ticks ≤ s'.ticks := by
  have hstep : Mstore.Step env s ⟨action, .ok answer⟩ s' := hcall
  cases perform_effect hstep with
  | created => exact h.elim
  | validated => exact Nat.le_succ _
  | issued _ _ _ _ s₁ _ _ _ _ _ hs₁ =>
    have hticks := hs₁.ticks
    show s.ticks ≤ s₁.ticks + 2
    omega
  | revoked => exact Nat.le_succ _
  | deleted => exact h.elim
  | closed => exact h.elim

theorem openAt_append_new {regions : List Region} {new : Region} (hnew : new.isOpen = true)
    (r : ℕ) : openAt (regions ++ [new]) r = true ↔
      r = regions.length ∨ openAt regions r = true := by
  unfold openAt
  obtain hlt | rfl | hgt := Nat.lt_trichotomy r regions.length
  · rw [List.getElem?_append_left hlt]
    constructor
    · exact .inr
    · intro h
      exact h.resolve_left (by omega)
  · simp [hnew]
  · have hnone : regions[r]? = none := List.getElem?_eq_none hgt.le
    have hnone' : (regions ++ [new])[r]? = none := List.getElem?_eq_none (by simp; omega)
    rw [hnone, hnone']
    simp
    omega

end Calls

/-! ## What the steps do -/

section Changes
variable {env : Environment} {s s' : Server P} {conn : ℕ}

theorem Kept.quiet (h : Kept env s)
    (hobjects : s'.store.registry.objects = s.store.registry.objects)
    (hregions : s'.store.regions = s.store.regions) (hticks : s.store.ticks ≤ s'.store.ticks)
    (hregion : ∀ c, (s'.worker c).region? = (s.worker c).region?)
    (hid : ∀ c, (s'.worker c).objectId? = (s.worker c).objectId?)
    (hmain : s'.main.regions = s.main.regions) : Kept env s' where
  custody := by
    refine h.custody.congr (fun a r => ?_) fun r => by rw [hregions]
    cases a with
    | object o => simp only [Server.Holds, hobjects]
    | worker c => simp only [Server.Holds, hregion]
    | server => simp only [Server.Holds, hmain]
  distinct := by rw [hmain]; exact h.distinct
  drawn o obj hobj := by
    rw [hobjects] at hobj
    obtain ⟨n, hn, ho⟩ := h.drawn o obj hobj
    exact ⟨n, hn.trans_le hticks, ho⟩
  chosen c o ho := by
    rw [hid] at ho
    obtain ⟨⟨n, hn, hdrawn⟩, hnone⟩ := h.chosen c o ho
    exact ⟨⟨n, hn.trans_le hticks, hdrawn⟩, by rw [hobjects]; exact hnone⟩
  apart c c' o ho ho' := by
    rw [hid] at ho ho'
    exact h.apart c c' o ho ho'

theorem Kept.move (h : Kept env s) {before place : Place} {store : State}
    (hplace : s.worker conn = before)
    (hobjects : store.registry.objects = s.store.registry.objects)
    (hregions : store.regions = s.store.regions) (hticks : s.store.ticks ≤ store.ticks)
    (hregion : place.region? = before.region?) (hid : place.objectId? = before.objectId?) :
    Kept env ({ s with store := store }.at conn place) := by
  refine h.quiet hobjects hregions hticks (fun c => ?_) (fun c => ?_) rfl
  · by_cases hc : c = conn
    · rw [hc, Server.at_worker_self, hplace, hregion]
    · rw [Server.at_worker_ne hc]
  · by_cases hc : c = conn
    · rw [hc, Server.at_worker_self, hplace, hid]
    · rw [Server.at_worker_ne hc]

theorem holds_at_ne {store : State} {place : Place} {c region : ℕ} (hc : c ≠ conn) :
    ({ s with store := store }.at conn place).Holds (.worker c) region ↔
      s.Holds (.worker c) region := by
  simp only [Server.Holds]
  rw [Server.at_worker_ne hc]

theorem holds_at_self {store : State} {place : Place} {region : ℕ} :
    ({ s with store := store }.at conn place).Holds (.worker conn) region ↔
      place.region? = some region := by
  simp only [Server.Holds]
  rw [Server.at_worker_self]

theorem holds_at_object {store : State} {place : Place} {objectId : String} {region : ℕ} :
    ({ s with store := store }.at conn place).Holds (.object objectId) region ↔
      ∃ obj, store.registry.objects.get? objectId = some obj ∧ obj.region = region := Iff.rfl

theorem holds_at_server {store : State} {place : Place} {region : ℕ} :
    ({ s with store := store }.at conn place).Holds .server region ↔
      s.Holds .server region := Iff.rfl

theorem Kept.create (h : Kept env s) (hunique : env.Unique) {size : ℤ}
    {shape dtype order metadata : Json} {objectId : String} {region : ℕ} {store : State}
    (hplace : s.worker conn = .serving)
    (hcall : allocateRegion env size s.store = .ok (objectId, region) store) :
    Kept env ({ s with store := store }.at conn
      (.creating size shape dtype order metadata objectId region)) := by
  obtain ⟨rfl, rfl, hticks, hregistry, new, hnew, hregions⟩ := allocateRegion_ok hcall
  have hshut : ¬ openAt s.store.regions s.store.regions.length = true := by
    unfold openAt
    simp
  have hnobody : ∀ a, ¬ s.Holds a s.store.regions.length :=
    fun a ha => hshut (h.custody.live a _ ha)
  have hfresh : ∀ o, (∃ n < s.store.ticks, o = env.uuid4 n) → o ≠ env.uuid4 s.store.ticks := by
    intro o hdrawn heq
    obtain ⟨n, hn, ho⟩ := hdrawn
    have hn' := hunique.id (ho.symm.trans heq)
    omega
  refine ⟨?_, h.distinct, fun o obj hobj => ?_, fun c o ho => ?_, fun c c' o ho ho' => ?_⟩
  · refine h.custody.give (b := .worker conn) (r := s.store.regions.length) (fun a => ?_)
      (fun a q hq => ?_) fun q => ?_
    · cases a with
      | object o =>
        rw [holds_at_object, hregistry]
        exact ⟨fun ha => absurd ha (hnobody (.object o)), by simp⟩
      | worker c =>
        by_cases hc : c = conn
        · rw [hc, holds_at_self]
          simp [Place.region?]
        · rw [holds_at_ne hc]
          exact ⟨fun ha => absurd ha (hnobody (.worker c)), by simp [hc]⟩
      | server => exact ⟨fun ha => absurd ha (hnobody .server), by simp⟩
    · cases a with
      | object o => rw [holds_at_object, hregistry, Server.Holds]
      | worker c =>
        by_cases hc : c = conn
        · rw [hc, holds_at_self, Server.Holds, hplace]
          simp [Place.region?, hq.symm]
        · rw [holds_at_ne hc]
      | server => rw [holds_at_server]
    · show openAt store.regions q = true ↔ _
      rw [hregions]
      exact openAt_append_new hnew q
  · have hobj : store.registry.objects.get? o = some obj := hobj
    rw [hregistry] at hobj
    obtain ⟨n, hn, ho⟩ := h.drawn o obj hobj
    exact ⟨n, hn.trans hticks, ho⟩
  · show (∃ n < store.ticks, o = env.uuid4 n) ∧ store.registry.objects.get? o = none
    rw [hregistry]
    by_cases hc : c = conn
    · rw [hc, Server.at_worker_self] at ho
      cases ho
      refine ⟨⟨_, hticks, rfl⟩, ?_⟩
      rw [Option.eq_none_iff_forall_ne_some]
      intro obj hobj
      exact hfresh _ (h.drawn _ obj hobj) rfl
    · rw [Server.at_worker_ne hc] at ho
      obtain ⟨⟨n, hn, hdrawn⟩, hnone⟩ := h.chosen c o ho
      exact ⟨⟨n, hn.trans hticks, hdrawn⟩, hnone⟩
  · have hself : ∀ c o, c ≠ conn → (s.worker c).objectId? = some o →
        o ≠ env.uuid4 s.store.ticks := fun c o _ ho => hfresh o (h.chosen c o ho).1
    by_cases hc : c = conn
    · by_cases hc' : c' = conn
      · rw [hc, hc']
      · rw [hc, Server.at_worker_self] at ho
        rw [Server.at_worker_ne hc'] at ho'
        cases ho
        exact absurd rfl (hself c' _ hc' ho')
    · rw [Server.at_worker_ne hc] at ho
      by_cases hc' : c' = conn
      · rw [hc', Server.at_worker_self] at ho'
        cases ho'
        exact absurd rfl (hself c _ hc ho)
      · rw [Server.at_worker_ne hc'] at ho'
        exact h.apart c c' o ho ho'

theorem Kept.ids (h : Kept env s) (conn : ℕ) (place : Place) {store : State}
    (hticks : s.store.ticks ≤ store.ticks) (hid : place.objectId? = none)
    (hobjects : ∀ o, store.registry.objects.get? o = none ∨
      (s.worker conn).objectId? = some o ∨
      store.registry.objects.get? o = s.store.registry.objects.get? o) :
    (∀ o obj, store.registry.objects.get? o = some obj → ∃ n < store.ticks, o = env.uuid4 n) ∧
    (∀ c o, (({ s with store := store }.at conn place).worker c).objectId? = some o →
      (∃ n < store.ticks, o = env.uuid4 n) ∧ store.registry.objects.get? o = none) ∧
    ∀ c c' o, (({ s with store := store }.at conn place).worker c).objectId? = some o →
      (({ s with store := store }.at conn place).worker c').objectId? = some o → c = c' := by
  have hdrawn : ∀ o, (∃ n < s.store.ticks, o = env.uuid4 n) →
      ∃ n < store.ticks, o = env.uuid4 n := by
    intro o hn
    obtain ⟨n, hn, ho⟩ := hn
    exact ⟨n, hn.trans_le hticks, ho⟩
  have hworker : ∀ c o, (({ s with store := store }.at conn place).worker c).objectId? = some o →
      c ≠ conn ∧ (s.worker c).objectId? = some o := by
    intro c o ho
    by_cases hc : c = conn
    · rw [hc, Server.at_worker_self, hid] at ho
      cases ho
    · rw [Server.at_worker_ne hc] at ho
      exact ⟨hc, ho⟩
  refine ⟨fun o obj hobj => hdrawn o ?_, fun c o ho => ?_, fun c c' o ho ho' => ?_⟩
  · obtain hnone | hchosen | hsame := hobjects o
    · rw [hnone] at hobj
      cases hobj
    · exact (h.chosen conn o hchosen).1
    · rw [hsame] at hobj
      exact h.drawn o obj hobj
  · obtain ⟨hc, ho⟩ := hworker c o ho
    obtain ⟨hn, hnone⟩ := h.chosen c o ho
    refine ⟨hdrawn o hn, ?_⟩
    obtain hnone' | hchosen | hsame := hobjects o
    · exact hnone'
    · exact absurd (h.apart c conn o ho hchosen) hc
    · rw [hsame, hnone]
  · exact h.apart c c' o (hworker c o ho).2 (hworker c' o ho').2

/-- Registering hands the region from the worker to the object. -/
theorem Kept.register (h : Kept env s) {size : ℤ} {shape dtype order metadata : Json}
    {objectId token : String} {region : ℕ} {obj : ObjectRecord} {store : State}
    (hplace : s.worker conn = .creating size shape dtype order metadata objectId region)
    (hcall : registerObject env size shape dtype order metadata objectId region s.store =
      .ok (obj, token) store) : Kept env ({ s with store := store }.at conn .answering) := by
  obtain ⟨hregion, hobjects, hregions⟩ := registerObject_run hcall
  have hticks : s.store.ticks ≤ store.ticks := by
    cases hcall
    show s.store.ticks ≤ s.store.ticks + 1 + 1 + 1
    omega
  have hid : (s.worker conn).objectId? = some objectId := by
    rw [hplace]
    rfl
  have hmine : s.Holds (.worker conn) region := by
    rw [Server.Holds, hplace]
    rfl
  have hother : ∀ a, a ≠ .worker conn → ¬ s.Holds a region := fun a ha hr =>
    ha (h.custody.exclusive a _ region hr hmine)
  have hnone := (h.chosen conn objectId hid).2
  obtain ⟨hdrawn, hchosen, hapart⟩ := h.ids conn .answering hticks rfl
    fun o => by
      by_cases ho : o = objectId
      · exact .inr (.inl (by rw [ho]; exact hid))
      · exact .inr (.inr (by rw [hobjects, Dict.get?_set_of_ne ho]))
  refine ⟨?_, h.distinct, hdrawn, hchosen, hapart⟩
  refine h.custody.give (b := .object objectId) (r := region) (fun a => ?_) (fun a q hq => ?_)
    fun q => ?_
  · cases a with
    | object o =>
      rw [holds_at_object, hobjects]
      by_cases ho : o = objectId
      · subst ho
        rw [Dict.get?_set_self]
        simp [hregion]
      · rw [Dict.get?_set_of_ne ho]
        exact ⟨fun ha => absurd ha (hother (.object o) (by simp)), by simp [ho]⟩
    | worker c =>
      by_cases hc : c = conn
      · rw [hc, holds_at_self]
        simp [Place.region?]
      · rw [holds_at_ne hc]
        exact ⟨fun ha => absurd ha (hother (.worker c) (by simp [hc])), by simp⟩
    | server => exact ⟨fun ha => absurd ha (hother .server (by simp)), by simp⟩
  · cases a with
    | object o =>
      rw [holds_at_object, hobjects, Server.Holds]
      by_cases ho : o = objectId
      · subst ho
        rw [Dict.get?_set_self, hnone]
        simp [hregion, hq.symm]
      · rw [Dict.get?_set_of_ne ho]
    | worker c =>
      by_cases hc : c = conn
      · rw [hc, holds_at_self, Server.Holds, hplace]
        simp [Place.region?, hq.symm]
      · rw [holds_at_ne hc]
    | server => rw [holds_at_server]
  · show openAt store.regions q = true ↔ _
    rw [hregions]
    constructor
    · exact .inr
    · rintro (rfl | hq)
      · exact h.custody.live _ q hmine
      · exact hq

/-- Removing hands the region from the object to the worker. -/
theorem Kept.remove (h : Kept env s) {objectId rawToken : String} {obj : ObjectRecord}
    {store : State} (hplace : s.worker conn = .serving)
    (hcall : removeObject env objectId rawToken s.store = .ok obj store) :
    Kept env ({ s with store := store }.at conn (.removed obj)) := by
  obtain ⟨hobj, hobjects, hregions⟩ := removeObject_ok hcall
  have hticks : s.store.ticks ≤ store.ticks := by
    unfold removeObject at hcall
    obtain ⟨x, s₁, hvalidate, hrest⟩ := bind_eq_ok.mp hcall
    have hlater := (validate_quiet _ _ _).unchanged hvalidate
    cases hrest
    exact hlater.ticks
  have htheirs : s.Holds (.object objectId) obj.region := ⟨obj, hobj, rfl⟩
  have hother : ∀ a, a ≠ .object objectId → ¬ s.Holds a obj.region := fun a ha hr =>
    ha (h.custody.exclusive a _ _ hr htheirs)
  obtain ⟨hdrawn, hchosen, hapart⟩ := h.ids conn (.removed obj) hticks rfl
    fun o => by
      by_cases ho : o = objectId
      · exact .inl (by rw [hobjects, ho, Dict.get?_pop_self])
      · exact .inr (.inr (by rw [hobjects, Dict.get?_pop_of_ne ho]))
  refine ⟨?_, h.distinct, hdrawn, hchosen, hapart⟩
  refine h.custody.give (b := .worker conn) (r := obj.region) (fun a => ?_) (fun a q hq => ?_)
    fun q => ?_
  · cases a with
    | object o =>
      rw [holds_at_object, hobjects]
      by_cases ho : o = objectId
      · rw [ho, Dict.get?_pop_self]
        simp
      · rw [Dict.get?_pop_of_ne ho]
        exact ⟨fun ha => absurd ha (hother (.object o) (by simp [ho])), by simp⟩
    | worker c =>
      by_cases hc : c = conn
      · rw [hc, holds_at_self]
        simp [Place.region?]
      · rw [holds_at_ne hc]
        exact ⟨fun ha => absurd ha (hother (.worker c) (by simp)), by simp [hc]⟩
    | server => exact ⟨fun ha => absurd ha (hother .server (by simp)), by simp⟩
  · cases a with
    | object o =>
      rw [holds_at_object, hobjects, Server.Holds]
      by_cases ho : o = objectId
      · rw [ho, Dict.get?_pop_self, hobj]
        simp [hq.symm]
      · rw [Dict.get?_pop_of_ne ho]
    | worker c =>
      by_cases hc : c = conn
      · rw [hc, holds_at_self, Server.Holds, hplace]
        simp [Place.region?, hq.symm]
      · rw [holds_at_ne hc]
    | server => rw [holds_at_server]
  · show openAt store.regions q = true ↔ _
    rw [hregions]
    constructor
    · exact .inr
    · rintro (rfl | hq)
      · exact h.custody.live _ _ htheirs
      · exact hq

theorem openAt_close {region : ℕ} {store : State}
    (hcall : closeRegion region s.store = .ok () store) (q : ℕ) :
    openAt store.regions q = true ↔ openAt s.store.regions q = true ∧ q ≠ region := by
  cases hcall
  show openAt (s.store.regions.modify region Region.close) q = true ↔ _
  rw [openAt_modify]
  simp

theorem Kept.release (h : Kept env s) {obj : ObjectRecord} {store : State}
    (hplace : s.worker conn = .removed obj)
    (hcall : closeRegion obj.region s.store = .ok () store) :
    Kept env ({ s with store := store }.at conn .answering) := by
  have hshut := openAt_close hcall
  have hsame : store.registry.objects = s.store.registry.objects ∧
      s.store.ticks ≤ store.ticks := by
    cases hcall
    exact ⟨rfl, le_rfl⟩
  have hmine : s.Holds (.worker conn) obj.region := by
    rw [Server.Holds, hplace]
    rfl
  have hother : ∀ a q, a ≠ .worker conn → s.Holds a q → q ≠ obj.region := by
    rintro a q ha hq rfl
    exact ha (h.custody.exclusive a _ _ hq hmine)
  obtain ⟨hdrawn, hchosen, hapart⟩ := h.ids conn .answering hsame.2 rfl
    fun o => .inr (.inr (by rw [hsame.1]))
  refine ⟨h.custody.release (r := obj.region) (fun a q => ?_) hshut, h.distinct, hdrawn, hchosen,
    hapart⟩
  cases a with
  | object o =>
    rw [holds_at_object, hsame.1]
    exact ⟨fun ha => ⟨ha, hother (.object o) q (by simp) ha⟩, And.left⟩
  | worker c =>
    by_cases hc : c = conn
    · rw [hc, holds_at_self, Server.Holds, hplace]
      simp [Place.region?, eq_comm]
    · rw [holds_at_ne hc]
      exact ⟨fun ha => ⟨ha, hother (.worker c) q (by simp [hc]) ha⟩, And.left⟩
  | server => exact ⟨fun ha => ⟨ha, hother .server q (by simp) ha⟩, And.left⟩

theorem Kept.clear (h : Kept env s) {objects : List ObjectRecord} {store : State}
    (hmain : s.main = .hanging [])
    (hcall : clearRegistry s.store = .ok objects store) :
    Kept env { s with store := store, main := .closing objects } := by
  cases hcall
  have hnone : s.main.regions = [] := by
    rw [hmain]
    rfl
  refine ⟨h.custody.map Owner.cleared fun b r => ?_, ?_, fun o obj hobj => ?_, fun c o ho => ?_,
    h.apart⟩
  · cases b with
    | object o =>
      constructor
      · intro hr
        obtain ⟨obj, hobj, -⟩ := hr
        cases hobj
      · intro hr
        obtain ⟨a, -, ha⟩ := hr
        cases a <;> cases ha
    | worker c =>
      constructor
      · exact fun hr => ⟨.worker c, hr, rfl⟩
      · intro hr
        obtain ⟨a, hr, ha⟩ := hr
        cases a with
        | worker c' =>
          cases ha
          exact hr
        | object o => cases ha
        | server => cases ha
    | server =>
      constructor
      · intro hr
        obtain ⟨obj, hobj, rfl⟩ := List.mem_map.mp hr
        obtain ⟨o, hobj⟩ := Dict.mem_values.mp hobj
        exact ⟨.object o, ⟨obj, Dict.get?_eq_some.mpr hobj, rfl⟩, rfl⟩
      · intro hr
        obtain ⟨a, hr, ha⟩ := hr
        cases a with
        | object o =>
          obtain ⟨obj, hobj, rfl⟩ := hr
          exact List.mem_map_of_mem (Dict.mem_values.mpr ⟨o, Dict.get?_eq_some.mp hobj⟩)
        | worker c => cases ha
        | server =>
          rw [Server.Holds, hnone] at hr
          cases hr
  · refine Dict.nodup_map_values _ fun o obj o' obj' hobj hobj' heq => ?_
    have hsame := h.custody.exclusive (.object o) (.object o') obj.region
      ⟨obj, Dict.get?_eq_some.mpr hobj, rfl⟩ ⟨obj', Dict.get?_eq_some.mpr hobj', heq.symm⟩
    cases hsame
    rfl
  · cases hobj
  · exact ⟨(h.chosen c o ho).1, rfl⟩

/-- `Registry.close` closes one of the regions that it has taken. -/
theorem Kept.closeNext (h : Kept env s) {obj : ObjectRecord} {rest : List ObjectRecord}
    {store : State} (hmain : s.main = .closing (obj :: rest))
    (hcall : closeRegion obj.region s.store = .ok () store) :
    Kept env { s with store := store, main := .closing rest } := by
  have hshut := openAt_close hcall
  have hmine : ∀ q, s.Holds .server q ↔ q = obj.region ∨ q ∈ rest.map ObjectRecord.region := by
    intro q
    rw [Server.Holds, hmain]
    simp [Main.regions]
  have hdistinct := h.distinct
  rw [hmain] at hdistinct
  obtain ⟨hnew, hdistinct⟩ := List.nodup_cons.mp hdistinct
  have hother : ∀ a q, a ≠ .server → s.Holds a q → q ≠ obj.region := by
    rintro a q ha hq rfl
    exact ha (h.custody.exclusive a _ _ hq ((hmine _).mpr (.inl rfl)))
  cases hcall
  refine ⟨h.custody.release (r := obj.region) (fun a q => ?_) hshut, hdistinct, h.drawn, h.chosen,
    h.apart⟩
  cases a with
  | object o => exact ⟨fun ha => ⟨ha, hother (.object o) q (by simp) ha⟩, And.left⟩
  | worker c => exact ⟨fun ha => ⟨ha, hother (.worker c) q (by simp) ha⟩, And.left⟩
  | server =>
    rw [hmine]
    constructor
    · intro hq
      refine ⟨.inr hq, ?_⟩
      rintro rfl
      exact hnew hq
    · intro hq
      exact hq.1.resolve_left hq.2

/-! ## Every step -/

theorem Kept.worker (h : Kept env s) (hunique : env.Unique) {e : Event}
    (hstep : WorkerStep env s conn e s') : Kept env s' := by
  cases hstep with
  | create _ _ _ _ _ _ _ _ hplace _ hcall => exact h.create hunique hplace hcall
  | register _ _ _ _ _ _ _ _ _ _ hplace hcall => exact h.register hplace hcall
  | remove _ _ _ _ hplace hcall => exact h.remove hplace hcall
  | closeRegion _ _ hplace hcall => exact h.release hplace hcall
  | call action answer store hplace hkeeps hcall =>
    obtain ⟨hobjects, hregions⟩ := Descriptors.Keeps.unchanged hkeeps hcall
    exact h.move hplace hobjects hregions (keeps_ticks hkeeps hcall) rfl rfl
  | refuse action failure store hplace hcall =>
    have hsame := perform_safe action _ _ _ hcall
    exact h.move hplace (congrArg Registry.objects hsame.registry) hsame.regions hsame.ticks rfl rfl
  | check hplace | quit hplace | receive hplace | receiveFailed hplace | pong hplace
  | invalid hplace | answer hplace | answerFailed hplace | report hplace | reportFailed hplace =>
    exact h.move hplace rfl rfl le_rfl rfl rfl
  | hangUp hplace =>
    have hmoved : Kept env (s.at conn .unregistering) := h.move hplace rfl rfl le_rfl rfl rfl
    exact hmoved.quiet rfl rfl le_rfl (fun _ => rfl) (fun _ => rfl) rfl
  | unregister hplace =>
    have hmoved : Kept env (s.at conn .ended) := h.move hplace rfl rfl le_rfl rfl rfl
    exact hmoved.quiet rfl rfl le_rfl (fun _ => rfl) (fun _ => rfl) rfl

theorem Kept.main (h : Kept env s) (hhosted : Hosted s) {e : Event} (hstep : MainStep s e s') :
    Kept env s' := by
  cases hstep with
  | clear _ _ hmain hcall => exact h.clear hmain hcall
  | closeRegion _ _ _ hmain hcall => exact h.closeNext hmain hcall
  | start c hmain =>
    have hmoved : Kept env (s.at c .looping) :=
      h.move (hhosted.enrolled c (.inr hmain)).2 rfl rfl le_rfl rfl rfl
    exact hmoved.quiet rfl rfl le_rfl (fun _ => rfl) (fun _ => rfl) (by
      show [] = s.main.regions
      rw [hmain]
      rfl)
  | listen hmain | listenFailed hmain | check hmain | quit hmain | accept hmain | timeout hmain
  | acceptFailed hmain | register _ hmain | startFailed _ hmain | closeListener hmain | list hmain
  | hangUp _ _ hmain | finish hmain =>
    exact h.quiet rfl rfl le_rfl (fun _ => rfl) (fun _ => rfl) (by rw [hmain]; rfl)

end Changes

section Steps
variable [DecidableEq P] {env : Environment} {s s' : Server P} {e : Event}

theorem Kept.step (h : Kept env s) (hunique : env.Unique) (hhosted : Hosted s)
    (hstep : Step env s e s') : Kept env s' := by
  cases hstep with
  | worker conn hworker => exact h.worker hunique hworker
  | main hmain => exact h.main hhosted hmain
  | caller p hcaller =>
    cases hcaller with
    | stop | closeListener | list | hangUp | finish =>
      exact h.quiet rfl rfl le_rfl (fun _ => rfl) (fun _ => rfl) rfl

/-! ## Objects that are registered late -/

/-- Only a worker that registers an object adds one. -/
theorem Step.objects (hstep : Step env s e s') {objectId : String} {obj : ObjectRecord}
    (hobj : s'.store.registry.objects.get? objectId = some obj) :
    s.store.registry.objects.get? objectId = some obj ∨
      ∃ conn, e = .registered conn obj.region := by
  cases hstep with
  | caller p h => cases h <;> exact .inl hobj
  | main h =>
    cases h with
    | clear _ _ _ hcall =>
      cases hcall
      cases hobj
    | closeRegion _ _ _ _ hcall =>
      cases hcall
      exact .inl hobj
    | _ => exact .inl hobj
  | worker conn h =>
    cases h with
    | create _ _ _ _ _ _ _ store _ _ hcall =>
      have hobj : store.registry.objects.get? objectId = some obj := hobj
      rw [(allocateRegion_ok hcall).2.2.2.1] at hobj
      exact .inl hobj
    | register _ _ _ _ _ id _ region _ store _ hcall =>
      obtain ⟨hregion, hobjects, -⟩ := registerObject_run hcall
      have hobj : store.registry.objects.get? objectId = some obj := hobj
      rw [hobjects, Dict.get?_set] at hobj
      by_cases ho : objectId = id
      · rw [if_pos ho] at hobj
        cases hobj
        exact .inr ⟨conn, by rw [hregion]⟩
      · rw [if_neg ho] at hobj
        exact .inl hobj
    | remove id _ _ store _ hcall =>
      obtain ⟨-, hobjects, -⟩ := removeObject_ok hcall
      have hobj : store.registry.objects.get? objectId = some obj := hobj
      rw [hobjects] at hobj
      by_cases ho : objectId = id
      · rw [ho, Dict.get?_pop_self] at hobj
        cases hobj
      · rw [Dict.get?_pop_of_ne ho] at hobj
        exact .inl hobj
    | closeRegion _ _ _ hcall =>
      cases hcall
      exact .inl hobj
    | call _ _ store _ hkeeps hcall =>
      have hobj : store.registry.objects.get? objectId = some obj := hobj
      rw [(Descriptors.Keeps.unchanged hkeeps hcall).1] at hobj
      exact .inl hobj
    | refuse action _ store _ hcall =>
      have hobj : store.registry.objects.get? objectId = some obj := hobj
      rw [(perform_safe action _ _ _ hcall).registry] at hobj
      exact .inl hobj
    | _ => exact .inl hobj

/-- The registry is emptied by one step of `serve_forever`. -/
theorem Step.clears (hstep : Step env s e s') (hbefore : ¬ s.main.Done) (hdone : s'.main.Done) :
    e = .cleared ∧ s'.store.registry.objects = .empty := by
  cases hstep with
  | worker conn h =>
    rw [h.moves.main] at hdone
    exact absurd hdone hbefore
  | caller p h => cases h <;> exact absurd hdone hbefore
  | main h =>
    cases h with
    | clear _ _ _ hcall =>
      cases hcall
      exact ⟨rfl, rfl⟩
    | closeRegion _ _ _ hmain | finish hmain =>
      rw [hmain] at hbefore
      exact absurd trivial hbefore
    | _ => exact hdone.elim

/-- The event is that this connection's worker registers an object. -/
def Event.registers (conn : ℕ) : Event → Bool
  | .registered c _ => c = conn
  | _ => false

/-- The worker has received a request and not yet registered an object for it. -/
def Place.MayRegister : Place → Prop
  | .serving => True
  | .creating .. => True
  | _ => False

/-- Without a new request, a worker registers one object at most. -/
theorem Step.registers (hstep : Step env s e s') (hhosted : Hosted s) (hdone : s.main.Done)
    (conn : ℕ) :
    (e.registers conn = true → (s.worker conn).MayRegister ∧ ¬ (s'.worker conn).MayRegister) ∧
      ((s'.worker conn).MayRegister → (s.worker conn).MayRegister) := by
  cases hstep with
  | caller p h => cases h <;> exact ⟨by simp [Event.registers], id⟩
  | main h =>
    cases h with
    | start c hmain =>
      refine ⟨by simp [Event.registers], fun hplace => ?_⟩
      by_cases hc : conn = c
      · rw [hc, Server.at_worker_self] at hplace
        exact hplace.elim
      · rwa [Server.at_worker_ne hc] at hplace
    | _ => exact ⟨by simp [Event.registers], id⟩
  | worker c h =>
    by_cases hc : conn = c
    · subst hc
      cases h with
      | receive hplace hopen =>
        rw [hhosted.closed hdone (by simp [hplace])] at hopen
        cases hopen
      | create _ _ _ _ _ _ _ _ hplace =>
        exact ⟨by simp [Event.registers], fun _ => by rw [hplace]; trivial⟩
      | register _ _ _ _ _ _ _ _ _ _ hplace =>
        refine ⟨fun _ => ⟨by rw [hplace]; trivial, ?_⟩, ?_⟩
        · rw [Server.at_worker_self]
          exact id
        · rw [Server.at_worker_self]
          exact False.elim
      | _ =>
        refine ⟨by simp [Event.registers], ?_⟩
        rw [Server.at_worker_self]
        exact False.elim
    · rw [h.moves.others conn hc]
      refine ⟨fun he => ?_, id⟩
      cases h with
      | register => exact absurd (of_decide_eq_true he).symm hc
      | _ => cases he

/-! ## Every run -/

variable {events later : List Event}

theorem run_kept (hunique : env.Unique) (hrun : Run (Step env) Server.new events s) :
    Hosted s ∧ Kept env s :=
  hrun.invariant (I := fun s => Hosted s ∧ Kept env s)
    (fun _ _ _ h hstep => ⟨h.1.step hstep, h.2.step hunique h.1 hstep⟩) ⟨.new, .new env⟩

/-- Once `Registry.close` has emptied the registry, it has the objects registered since then. -/
theorem run_late (hrun : Run (Step env) Server.new events s) (hdone : s.main.Done) :
    ∃ before after, events = before ++ .cleared :: after ∧
      ∀ objectId obj, s.store.registry.objects.get? objectId = some obj →
        ∃ conn, .registered conn obj.region ∈ after := by
  refine hrun.history (I := fun events s => s.main.Done → ∃ before after,
    events = before ++ .cleared :: after ∧
      ∀ objectId obj, s.store.registry.objects.get? objectId = some obj →
        ∃ conn, .registered conn obj.region ∈ after) (fun h => h.elim) ?_ hdone
  intro events e s s' _ hI hstep hdone
  by_cases hbefore : s.main.Done
  · obtain ⟨before, after, rfl, hlate⟩ := hI hbefore
    refine ⟨before, after ++ [e], by simp, fun o obj hobj => ?_⟩
    obtain hold | ⟨conn, rfl⟩ := hstep.objects hobj
    · obtain ⟨conn, hconn⟩ := hlate o obj hold
      exact ⟨conn, List.mem_append_left _ hconn⟩
    · exact ⟨conn, by simp⟩
  · obtain ⟨rfl, hempty⟩ := hstep.clears hbefore hdone
    refine ⟨events, [], rfl, fun o obj hobj => ?_⟩
    rw [hempty] at hobj
    cases hobj

theorem registers_once (hrun : Run (Step env) s later s') (h : Hosted s) (hdone : s.main.Done)
    (conn : ℕ) : later.countP (Event.registers conn) ≤ 1 := by
  suffices hall : Hosted s' ∧ s'.main.Done ∧ later.countP (Event.registers conn) ≤ 1 ∧
      (later.countP (Event.registers conn) = 1 → ¬ (s'.worker conn).MayRegister) from hall.2.2.1
  refine hrun.history (I := fun events s => Hosted s ∧ s.main.Done ∧
    events.countP (Event.registers conn) ≤ 1 ∧
      (events.countP (Event.registers conn) = 1 → ¬ (s.worker conn).MayRegister))
    ⟨h, hdone, by simp, by simp⟩ ?_
  intro events e s s' _ hI hstep
  obtain ⟨hhosted, hdone, hone, hspent⟩ := hI
  obtain ⟨hregisters, hkept⟩ := hstep.registers hhosted hdone conn
  refine ⟨hhosted.step hstep, hstep.done hdone, ?_⟩
  rw [List.countP_append, List.countP_singleton]
  by_cases he : e.registers conn = true
  · obtain ⟨hmay, hnot⟩ := hregisters he
    have hzero : events.countP (Event.registers conn) ≠ 1 := fun h => hspent h hmay
    simp only [he, if_true]
    exact ⟨by omega, fun _ => hnot⟩
  · simp only [he, if_false, Bool.false_eq_true, add_zero]
    exact ⟨hone, fun h hmay => hspent h (hkept hmay)⟩

/-- When all threads of the server have ended, the regions that are still open are those of the
objects that workers have registered after `Registry.close` had emptied the registry; no connection
has more than one of them. -/
theorem shutdown_releases (hunique : env.Unique) (hrun : Run (Step env) Server.new events s)
    (hmain : s.main = .returned)
    (hworkers : ∀ conn, s.worker conn = .absent ∨ s.worker conn = .ended) :
    ∃ before after, events = before ++ .cleared :: after ∧
      (∀ region, openAt s.store.regions region = true ↔ Registered s.store region) ∧
      (∀ region, openAt s.store.regions region = true → ∃ conn, .registered conn region ∈ after) ∧
      ∀ conn, after.countP (Event.registers conn) ≤ 1 := by
  have hkept := (run_kept hunique hrun).2
  obtain ⟨before, after, hevents, hlate⟩ := run_late hrun (by rw [hmain]; trivial)
  have hopen : ∀ region, openAt s.store.regions region = true →
      ∃ o obj, s.store.registry.objects.get? o = some obj ∧ obj.region = region := by
    intro region hregion
    obtain ⟨a, ha⟩ := hkept.custody.held region hregion
    cases a with
    | object o => exact ⟨o, ha⟩
    | worker conn =>
      obtain h | h := hworkers conn
      · rw [Server.Holds, h] at ha
        cases ha
      · rw [Server.Holds, h] at ha
        cases ha
    | server =>
      rw [Server.Holds, hmain] at ha
      cases ha
  refine ⟨before, after, hevents, fun region => ⟨fun hregion => ?_, fun hregion => ?_⟩,
    fun region hregion => ?_, fun conn => ?_⟩
  · obtain ⟨o, obj, hobj, hregion⟩ := hopen region hregion
    exact ⟨o, obj, Dict.get?_eq_some.mp hobj, hregion⟩
  · obtain ⟨o, obj, hobj, hregion⟩ := hregion
    exact hkept.custody.live (.object o) region ⟨obj, Dict.get?_eq_some.mpr hobj, hregion⟩
  · obtain ⟨o, obj, hobj, rfl⟩ := hopen region hregion
    exact hlate o obj hobj
  · rw [hevents] at hrun
    obtain ⟨s₁, s₂, hearlier, hclear, hlater⟩ := hrun.split_cons
    refine registers_once hlater ((run_hosted hearlier).step hclear) ?_ conn
    cases hclear with
    | worker c h => cases h
    | caller p h => cases h
    | main h =>
      cases h with
      | clear => trivial

end Steps

/-- A region is left open whose object was registered too late. -/
theorem shutdown_releases_late : ∃ (events : List Event) (s : Server Unit),
    openAt s.store.regions 0 = true ∧ ∃ before after, events = before ++ .cleared :: after ∧
      (∀ region, openAt s.store.regions region = true ↔ Registered s.store region) ∧
      (∀ region, openAt s.store.regions region = true → ∃ conn, .registered conn region ∈ after) ∧
      ∀ conn, after.countP (Event.registers conn) ≤ 1 := by
  obtain ⟨events, s, hrun, hmain, hworkers, hopen⟩ := late_run
  exact ⟨events, s, hopen, shutdown_releases plainEnvironment_unique hrun hmain hworkers⟩

end Npb.Mstore.Daemon
