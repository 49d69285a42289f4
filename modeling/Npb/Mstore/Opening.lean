import Mathlib.Logic.Relation
import Npb.Mstore.Descriptors
import Npb.Mstore.Integrity

/-! # Opened descriptors

While a worker opens an object, another may delete it: the number that the first worker has read is
then free, and the operating system may give it to anyone. As long as no such number is given out,
every descriptor that is sent refers to the memory of its object; once one is given out, a wrong
descriptor may be sent (`opened_belongs`). -/

namespace Npb.Mstore.Descriptors
set_option autoImplicit false
open Effects

variable {W : Type}

/-! ## Owners of regions -/

/-- Who holds the only reference through which a region may be closed. -/
inductive Owner (W : Type) where
  | object (objectId : String)
  | worker (w : W)

def Place.owned : Place → Option ℕ
  | .creating _ _ _ _ _ _ region => some region
  | .removed obj => some obj.region
  | _ => none

def Server.Owns (s : Server W) : Owner W → ℕ → Prop
  | .object objectId, region =>
    ∃ obj, s.store.registry.objects.get? objectId = some obj ∧ obj.region = region
  | .worker w, region => (s.worker w).owned = some region

theorem Server.owns_worker {s : Server W} {w : W} {region : ℕ} :
    s.Owns (.worker w) region ↔ (s.worker w).owned = some region := Iff.rfl

theorem Server.owns_at [DecidableEq W] {s : Server W} {w u : W} {place : Place} {region : ℕ}
    (h : (s.at w place).Owns (.worker u) region) :
    u = w ∧ place.owned = some region ∨ u ≠ w ∧ s.Owns (.worker u) region := by
  rw [Server.owns_worker] at h ⊢
  by_cases hu : u = w
  · rw [hu, Server.at_worker_self] at h
    exact .inl ⟨hu, h⟩
  · rw [Server.at_worker_ne hu] at h
    exact .inr ⟨hu, h⟩

/-- The region has its descriptor. -/
def Server.Live (s : Server W) (region : ℕ) : Prop :=
  ∃ n : ℕ, fdOf s.store region = n ∧ s.table n = some ⟨.memory region, .region region⟩

/-! ## The invariant -/

/-- A number that is read for a region is that of its descriptor, or a number from which nothing
can be opened. -/
def Server.Names (s : Server W) (region : ℕ) (mode : Mode) (fd : ℤ) : Prop :=
  ∀ (n : ℕ) d, fd = n → s.table n = some d →
    d = ⟨.memory region, .region region⟩ ∨ mode.opens d.target = false

/-- What holds of a worker at a place. -/
def Server.Fits (s : Server W) (w : W) : Place → Prop
  | .mapping obj mode =>
    obj.region < s.store.regions.length ∧ s.Names obj.region mode (fdOf s.store obj.region)
  | .holding obj mode fd =>
    obj.region < s.store.regions.length ∧ s.Names obj.region mode fd ∧
      (fdOf s.store obj.region = fd ∨ fdOf s.store obj.region < 0)
  | .opened obj k => s.table k = some ⟨.memory obj.region, .worker w⟩
  | .closing obj =>
    obj.region < s.store.regions.length ∧
      ∀ n d, s.table n = some d → d.holder ≠ .region obj.region
  | _ => True

structure Inv (s : Server W) : Prop where
  live : ∀ a region, s.Owns a region → s.Live region
  exclusive : ∀ a b region, s.Owns a region → s.Owns b region → a = b
  held : ∀ n target region, s.table n = some ⟨target, .region region⟩ →
    target = .memory region ∧ fdOf s.store region = n
  fits : ∀ w, s.Fits w (s.worker w)
  sent : ∀ x ∈ s.sent, x.target = .memory x.obj.region
  finite : ∃ bound, ∀ n, bound ≤ n → s.table n = none

theorem fdOf_of_length_le {s : State} {region : ℕ} (h : s.regions.length ≤ region) :
    fdOf s region = -1 := by
  unfold fdOf
  rw [List.getElem?_eq_none h]

theorem Server.Live.lt {s : Server W} {region : ℕ} (h : s.Live region) :
    region < s.store.regions.length := by
  by_contra hle
  obtain ⟨n, hn, -⟩ := h
  rw [fdOf_of_length_le (Nat.le_of_not_lt hle)] at hn
  omega

/-! ## What a step leaves alone -/

/-- A step, as a worker that does not move sees it. -/
structure Frame (s s' : Server W) (w : W) : Prop where
  length : s.store.regions.length ≤ s'.store.regions.length
  fd : ∀ region < s.store.regions.length,
    fdOf s'.store region = fdOf s.store region ∨ fdOf s'.store region < 0
  table : ∀ (n : ℕ) d, s'.table n = some d → s.table n = some d ∨
    (s.table n = none ∧ (∀ obj, s.worker w = .closing obj → d.holder ≠ .region obj.region) ∧
      ∀ obj mode, s.Reads w obj mode n → mode.opens d.target = false)
  kept : ∀ obj k, s.worker w = .opened obj k → s'.table k = s.table k

section Frames
variable {s s' : Server W} {w : W}

theorem Server.Names.frame {obj : ObjectRecord} {mode : Mode} {fd : ℤ}
    (h : s.Names obj.region mode fd) (hframe : Frame s s' w)
    (hreads : ∀ n : ℕ, fd = n → s.Reads w obj mode n) : s'.Names obj.region mode fd := by
  intro n d hn hd
  obtain hd | ⟨-, -, hspared⟩ := hframe.table n d hd
  · exact h n d hn hd
  · exact .inr (hspared obj mode (hreads n hn))

theorem Frame.fits (hframe : Frame s s' w) (h : s.Fits w (s.worker w)) :
    s'.Fits w (s.worker w) := by
  cases hplace : s.worker w with
  | idle => trivial
  | creating size shape dtype order metadata objectId region => trivial
  | removed obj => trivial
  | mapping obj mode =>
    rw [hplace] at h
    obtain ⟨hlt, hnames⟩ := h
    refine ⟨hlt.trans_le hframe.length, ?_⟩
    have hnames' := hnames.frame hframe fun n hn => .inl ⟨hplace, hn⟩
    obtain hfd | hfd := hframe.fd _ hlt
    · rwa [hfd]
    · intro n d hn
      omega
  | holding obj mode fd =>
    rw [hplace] at h
    obtain ⟨hlt, hnames, hfd⟩ := h
    refine ⟨hlt.trans_le hframe.length, ?_, ?_⟩
    · refine hnames.frame hframe fun n hn => .inr ?_
      rw [hplace, hn]
    · obtain hsame | hgone := hframe.fd _ hlt
      · rwa [hsame]
      · exact .inr hgone
  | opened obj k =>
    rw [hplace] at h
    have h : s.table k = some ⟨.memory obj.region, .worker w⟩ := h
    show s'.table k = _
    rw [hframe.kept obj k hplace, h]
  | closing obj =>
    rw [hplace] at h
    obtain ⟨hlt, hfree⟩ := h
    refine ⟨hlt.trans_le hframe.length, ?_⟩
    intro n d hd
    obtain hd | ⟨-, hnew, -⟩ := hframe.table n d hd
    · exact hfree n d hd
    · exact hnew obj hplace

end Frames

theorem fdOf_congr {s s' : State} (h : s'.regions = s.regions) (region : ℕ) :
    fdOf s' region = fdOf s region := by
  unfold fdOf
  rw [h]

theorem fdOf_append {s s' : State} {region : Region} (h : s'.regions = s.regions ++ [region])
    {r : ℕ} (hr : r < s.regions.length) : fdOf s' r = fdOf s r := by
  unfold fdOf
  rw [h, List.getElem?_append_left hr]

section Closing
variable {s s' : State} {region : ℕ}

theorem fdOf_modify_ne (h : s'.regions = s.regions.modify region Region.close) {r : ℕ}
    (hr : r ≠ region) : fdOf s' r = fdOf s r := by
  unfold fdOf
  rw [h, List.getElem?_modify]
  cases s.regions[r]? with
  | none => rfl
  | some region' => simp [hr.symm]

theorem fdOf_modify_self (h : s'.regions = s.regions.modify region Region.close) :
    fdOf s' region < 0 := by
  unfold fdOf
  rw [h, List.getElem?_modify]
  cases s.regions[region]? with
  | none => simp
  | some r =>
    cases r with
    | windowsNamed closed size name => simp [Region.close]
    | memfd fd size name =>
      by_cases hfd : 0 ≤ fd
      · simp [Region.close, hfd]
      · simp [Region.close, hfd]
        omega

end Closing

theorem Server.Live.mono {s s' : Server W} {region : ℕ} (h : s.Live region)
    (hfd : fdOf s'.store region = fdOf s.store region)
    (htable : ∀ n, s.table n = some ⟨.memory region, .region region⟩ → s'.table n = s.table n) :
    s'.Live region := by
  obtain ⟨n, hn, hd⟩ := h
  refine ⟨n, hfd.trans hn, ?_⟩
  rw [htable n hd, hd]

/-! ## Steps that change one thing -/

section Changes
variable {s s' : Server W}

theorem Inv.next (h : Inv s)
    (hworkers : ∀ u, (s'.worker u = s.worker u ∧ Frame s s' u) ∨ s'.Fits u (s'.worker u))
    (hlive : ∀ a region, s'.Owns a region → s'.Live region)
    (hexclusive : ∀ a b region, s'.Owns a region → s'.Owns b region → a = b)
    (hheld : ∀ n target region, s'.table n = some ⟨target, .region region⟩ →
      target = .memory region ∧ fdOf s'.store region = n)
    (hsent : s'.sent = s.sent) (hfinite : ∃ bound, ∀ n, bound ≤ n → s'.table n = none) :
    Inv s' := by
  refine ⟨hlive, hexclusive, hheld, ?_, ?_, hfinite⟩
  · intro u
    obtain ⟨hsame, hframe⟩ | hfits := hworkers u
    · rw [hsame]
      exact hframe.fits (h.fits u)
    · exact hfits
  · rw [hsent]
    exact h.sent

theorem owns_store {store : State} (hobjects : store.registry.objects = s.store.registry.objects)
    {a : Owner W} {region : ℕ} (ha : Server.Owns { s with store := store } a region) :
    s.Owns a region := by
  cases a with
  | object objectId =>
    obtain ⟨obj, hobj, hregion⟩ := ha
    rw [hobjects] at hobj
    exact ⟨obj, hobj, hregion⟩
  | worker w => exact ha

theorem Inv.quiet (h : Inv s) {store : State}
    (hobjects : store.registry.objects = s.store.registry.objects)
    (hregions : store.regions = s.store.regions) : Inv { s with store := store } := by
  refine h.next ?_ ?_ ?_ ?_ rfl h.finite
  · intro u
    refine .inl ⟨rfl, ?_, ?_, fun n d hd => .inl hd, fun obj k hk => rfl⟩
    · exact (congrArg List.length hregions).ge
    · exact fun region _ => .inl (fdOf_congr hregions region)
  · intro a region ha
    exact (h.live a region (owns_store hobjects ha)).mono (fdOf_congr hregions region)
      fun _ _ => rfl
  · exact fun a b region ha hb =>
      h.exclusive a b region (owns_store hobjects ha) (owns_store hobjects hb)
  · intro n target region hd
    obtain ⟨htarget, hfd⟩ := h.held n target region hd
    exact ⟨htarget, (fdOf_congr hregions region).trans hfd⟩

/-- A new region, before its descriptor is in the table. -/
theorem Inv.append (h : Inv s) {store : State} {region : Region}
    (hobjects : store.registry.objects = s.store.registry.objects)
    (hregions : store.regions = s.store.regions ++ [region]) :
    Inv { s with store := store } := by
  have hold : ∀ r < s.store.regions.length, fdOf store r = fdOf s.store r :=
    fun r hr => fdOf_append hregions hr
  refine h.next ?_ ?_ ?_ ?_ rfl h.finite
  · intro u
    refine .inl ⟨rfl, ?_, fun r hr => .inl (hold r hr), fun n d hd => .inl hd, fun _ _ _ => rfl⟩
    show s.store.regions.length ≤ store.regions.length
    rw [hregions, List.length_append]
    exact Nat.le_add_right _ _
  · intro a r ha
    have hlive := h.live a r (owns_store hobjects ha)
    exact hlive.mono (hold r hlive.lt) fun _ _ => rfl
  · exact fun a b r ha hb =>
      h.exclusive a b r (owns_store hobjects ha) (owns_store hobjects hb)
  · intro n target r hd
    obtain ⟨htarget, hfd⟩ := h.held n target r hd
    refine ⟨htarget, ?_⟩
    have hr : r < s.store.regions.length := by
      by_contra hle
      rw [fdOf_of_length_le (Nat.le_of_not_lt hle)] at hfd
      omega
    rw [← hfd]
    exact hold r hr

theorem Inv.closeRegion (h : Inv s) {region : ℕ}
    (hnone : ∀ n d, s.table n = some d → d.holder ≠ .region region) :
    Inv (s.withRegions (s.store.regions.modify region Region.close)) := by
  have howned : ∀ a r, s.Owns a r → r ≠ region := by
    intro a r ha hr
    obtain ⟨n, -, hd⟩ := h.live a r ha
    exact hnone n _ hd (by rw [hr])
  refine h.next ?_ ?_ h.exclusive ?_ rfl h.finite
  · intro u
    refine .inl ⟨rfl, ?_, ?_, fun n d hd => .inl hd, fun obj k hk => rfl⟩
    · exact (List.length_modify ..).ge
    · intro r hr
      by_cases heq : r = region
      · subst heq
        exact .inr (fdOf_modify_self rfl)
      · exact .inl (fdOf_modify_ne rfl heq)
  · intro a r ha
    exact (h.live a r ha).mono (fdOf_modify_ne rfl (howned a r ha)) fun _ _ => rfl
  · intro n target r hd
    obtain ⟨htarget, hfd⟩ := h.held n target r hd
    have hr : r ≠ region := by
      intro heq
      exact hnone n _ hd (by rw [heq])
    exact ⟨htarget, (fdOf_modify_ne rfl hr).trans hfd⟩

theorem finite_update {table : ℕ → Option (Descriptor W)}
    (h : ∃ bound, ∀ n, bound ≤ n → table n = none) (k : ℕ) (d : Option (Descriptor W)) :
    ∃ bound, ∀ n, bound ≤ n → Function.update table k d n = none := by
  obtain ⟨bound, hbound⟩ := h
  refine ⟨max bound (k + 1), ?_⟩
  intro n hn
  rw [Function.update_of_ne (by omega)]
  exact hbound n (by omega)

/-- A number is given out that no worker is to duplicate. -/
theorem Inv.take (h : Inv s) {k : ℕ} {d : Descriptor W} (hfree : s.table k = none)
    (hheld : ∀ region, d.holder = .region region →
      d.target = .memory region ∧ fdOf s.store region = k)
    (hclosing : ∀ u obj, s.worker u = .closing obj → d.holder ≠ .region obj.region)
    (hspared : ∀ u obj mode, s.Reads u obj mode k → mode.opens d.target = false) :
    Inv (s.take k d) := by
  have hkept : ∀ n d', s.table n = some d' → (s.take k d).table n = s.table n := by
    intro n d' hd'
    apply Server.take_table_ne
    intro hn
    rw [hn, hfree] at hd'
    cases hd'
  have hold : ∀ n d', (s.take k d).table n = some d' → s.table n = some d' ∨ n = k ∧ d' = d := by
    intro n d' hd'
    by_cases hn : n = k
    · subst hn
      rw [Server.take_table_self] at hd'
      cases hd'
      exact .inr ⟨rfl, rfl⟩
    · rw [Server.take_table_ne hn] at hd'
      exact .inl hd'
  refine h.next ?_ ?_ h.exclusive ?_ rfl (finite_update h.finite k _)
  · intro u
    refine .inl ⟨rfl, Nat.le_refl _, fun _ _ => .inl rfl, ?_, ?_⟩
    · intro n d' hd'
      obtain hd' | ⟨rfl, rfl⟩ := hold n d' hd'
      · exact .inl hd'
      · exact .inr ⟨hfree, hclosing u, hspared u⟩
    · intro obj j hplace
      have hfits := h.fits u
      rw [hplace] at hfits
      exact hkept j _ hfits
  · exact fun a region ha => (h.live a region ha).mono rfl fun n hn => hkept n _ hn
  · intro n target region hd
    obtain hd | ⟨rfl, rfl⟩ := hold n _ hd
    · exact h.held n target region hd
    · exact hheld region rfl

/-- A number is freed that nobody needs. -/
theorem Inv.free (h : Inv s) {k : ℕ} {d : Descriptor W} (hd : s.table k = some d)
    (hworker : ∀ u obj j, d.holder = .worker u → s.worker u ≠ .opened obj j)
    (hregion : ∀ a region, s.Owns a region → d.holder ≠ .region region) : Inv (s.free k) := by
  have hold : ∀ n d', (s.free k).table n = some d' → s.table n = some d' := by
    intro n d' hd'
    by_cases hn : n = k
    · subst hn
      rw [Server.free_table_self] at hd'
      cases hd'
    · rw [Server.free_table_ne hn] at hd'
      exact hd'
  refine h.next ?_ ?_ h.exclusive ?_ rfl (finite_update h.finite k _)
  · intro u
    refine .inl ⟨rfl, Nat.le_refl _, fun _ _ => .inl rfl, fun n d' hd' => .inl (hold n d' hd'), ?_⟩
    intro obj j hplace
    apply Server.free_table_ne
    intro hj
    subst hj
    have hfits := h.fits u
    rw [hplace] at hfits
    have hfits : s.table j = some ⟨.memory obj.region, .worker u⟩ := hfits
    rw [hd] at hfits
    cases hfits
    exact hworker u obj j rfl hplace
  · intro a region ha
    refine (h.live a region ha).mono rfl fun n hn => ?_
    apply Server.free_table_ne
    intro heq
    subst heq
    rw [hd] at hn
    cases hn
    exact hregion a region ha rfl
  · exact fun n target region hd' => h.held n target region (hold n _ hd')

variable [DecidableEq W]

theorem Inv.move (h : Inv s) {w : W} {place : Place} (howned : place.owned = none)
    (hfits : s.Fits w place) : Inv (s.at w place) := by
  have howns : ∀ a region, (s.at w place).Owns a region → s.Owns a region := by
    intro a region ha
    cases a with
    | object objectId => exact ha
    | worker u =>
      obtain ⟨rfl, hr⟩ | ⟨-, ha⟩ := Server.owns_at ha
      · rw [howned] at hr
        cases hr
      · exact ha
  refine h.next ?_ ?_ ?_ h.held rfl h.finite
  · intro u
    by_cases hu : u = w
    · refine .inr ?_
      subst hu
      rw [Server.at_worker_self]
      cases place <;> exact hfits
    · exact .inl ⟨Server.at_worker_ne hu, Nat.le_refl _, fun _ _ => .inl rfl,
        fun n d hd => .inl hd, fun obj k hk => rfl⟩
  · exact fun a region ha => h.live a region (howns a region ha)
  · exact fun a b region ha hb => h.exclusive a b region (howns a region ha) (howns b region hb)

end Changes

/-! ## Steps that hand a region over -/

section HandOver
variable {s s' : Server W}

theorem Server.Live.names {region : ℕ} (h : s.Live region) (mode : Mode) :
    s.Names region mode (fdOf s.store region) := by
  obtain ⟨m, hm, hd⟩ := h
  intro n d hn hd'
  obtain rfl : m = n := by omega
  rw [hd] at hd'
  cases hd'
  exact .inl rfl

variable [DecidableEq W] {env : Environment} {w : W}

theorem Inv.pass (h : Inv s) {store : State} {place : Place}
    (hregions : store.regions = s.store.regions) (x : Owner W) {region : ℕ} (hlive : s.Live region)
    (howns : ∀ a r, Server.Owns ({ s with store := store }.at w place) a r →
      a = x ∧ r = region ∨ r ≠ region ∧ s.Owns a r)
    (hfits : Server.Fits { s with store := store } w place) :
    Inv ({ s with store := store }.at w place) := by
  have hkept : ∀ r, s.Live r → Server.Live ({ s with store := store }.at w place) r :=
    fun r hr => hr.mono (fdOf_congr hregions r) fun _ _ => rfl
  refine h.next ?_ ?_ ?_ ?_ rfl h.finite
  · intro u
    by_cases hu : u = w
    · refine .inr ?_
      rw [hu, Server.at_worker_self]
      cases place <;> exact hfits
    · refine .inl ⟨Server.at_worker_ne hu, ?_, ?_, fun n d hd => .inl hd, fun obj k hk => rfl⟩
      · exact (congrArg List.length hregions).ge
      · exact fun r _ => .inl (fdOf_congr hregions r)
  · intro a r ha
    obtain ⟨-, rfl⟩ | ⟨-, ha⟩ := howns a r ha
    · exact hkept r hlive
    · exact hkept r (h.live a r ha)
  · intro a b r ha hb
    obtain ⟨rfl, rfl⟩ | ⟨hne, ha⟩ := howns a r ha
    · obtain ⟨rfl, -⟩ | ⟨hne, -⟩ := howns b _ hb
      · rfl
      · exact absurd rfl hne
    · obtain ⟨-, rfl⟩ | ⟨-, hb⟩ := howns b r hb
      · exact absurd rfl hne
      · exact h.exclusive a b r ha hb
  · intro n target r hd
    obtain ⟨htarget, hfd⟩ := h.held n target r hd
    exact ⟨htarget, (fdOf_congr hregions r).trans hfd⟩

theorem Inv.create (h : Inv s) (size : ℤ) (shape dtype order metadata : Json) {n : ℕ}
    (hfree : s.table n = none) {store : State} (region : Region)
    (hobjects : store.registry.objects = s.store.registry.objects)
    (hregions : store.regions = s.store.regions ++ [region])
    (hfd : fdOf store s.store.regions.length = n) (objectId : String)
    (hspared : ∀ u obj mode, s.Reads u obj mode n → mode.opens
      (.memory s.store.regions.length) = false) :
    Inv (({ s with store := store }.take n
      ⟨.memory s.store.regions.length, .region s.store.regions.length⟩).at w
        (.creating size shape dtype order metadata objectId s.store.regions.length)) := by
  have htaken : Inv (Server.take { s with store := store } n
      ⟨.memory s.store.regions.length, .region s.store.regions.length⟩) := by
    refine (h.append hobjects hregions).take hfree ?_ ?_ ?_
    · intro r hr
      cases hr
      exact ⟨rfl, hfd⟩
    · intro u obj hplace heq
      have hfits := h.fits u
      rw [show s.worker u = _ from hplace] at hfits
      have heq : s.store.regions.length = obj.region := Holder.region.inj heq
      exact absurd heq hfits.1.ne'
    · intro u obj mode hreads
      refine hspared u obj mode ?_
      obtain ⟨hplace, hfd'⟩ | hplace := hreads
      · have hfits := h.fits u
        rw [show s.worker u = _ from hplace] at hfits
        exact .inl ⟨hplace, (fdOf_append hregions hfits.1).symm.trans hfd'⟩
      · exact .inr hplace
  refine htaken.pass rfl (.worker w) ⟨n, hfd, Server.take_table_self⟩ ?_ trivial
  intro a r ha
  have hold : s.Owns a r → r ≠ s.store.regions.length := fun ha => ((h.live a r ha).lt).ne
  cases a with
  | object o =>
    have ha' : s.Owns (.object o) r := owns_store (s := s) hobjects ha
    exact .inr ⟨hold ha', ha⟩
  | worker u =>
    obtain ⟨rfl, hr⟩ | ⟨-, ha⟩ := Server.owns_at ha
    · cases hr
      exact .inl ⟨rfl, rfl⟩
    · have ha' : s.Owns (.worker u) r := ha
      exact .inr ⟨hold ha', ha⟩

/-- Registering hands the region from the worker to the object. -/
theorem Inv.register (h : Inv s) {size : ℤ} {shape dtype order metadata : Json}
    {objectId token : String} {region : ℕ} {obj : ObjectRecord} {store : State}
    (hplace : s.worker w = .creating size shape dtype order metadata objectId region)
    (hcall : registerObject env size shape dtype order metadata objectId region s.store =
      .ok (obj, token) store) :
    Inv ({ s with store := store }.at w (.mapping obj .write)) := by
  obtain ⟨hregion, hobjects, hregions⟩ := registerObject_run hcall
  have howned : s.Owns (.worker w) region := by
    rw [Server.owns_worker, hplace]
    rfl
  have hlive := h.live _ _ howned
  refine h.pass hregions (.object objectId) hlive ?_ ?_
  · intro a r ha
    have hne : a ≠ .worker w → s.Owns a r → r ≠ region := by
      intro hne ha hr
      rw [hr] at ha
      exact hne (h.exclusive a _ region ha howned)
    cases a with
    | object o =>
      obtain ⟨obj', hobj, hr⟩ := ha
      have hobj : store.registry.objects.get? o = some obj' := hobj
      rw [hobjects, Dict.get?_set] at hobj
      by_cases ho : o = objectId
      · rw [if_pos ho] at hobj
        cases hobj
        exact .inl ⟨by rw [ho], hr.symm.trans hregion⟩
      · rw [if_neg ho] at hobj
        have ha : s.Owns (.object o) r := ⟨obj', hobj, hr⟩
        exact .inr ⟨hne nofun ha, ha⟩
    | worker u =>
      obtain ⟨rfl, hr⟩ | ⟨hu, ha⟩ := Server.owns_at ha
      · cases hr
      · refine .inr ⟨hne ?_ ha, ha⟩
        intro heq
        cases heq
        exact hu rfl
  · rw [← hregion] at hlive
    have hlive' : Server.Live { s with store := store } obj.region :=
      hlive.mono (fdOf_congr hregions _) fun _ _ => rfl
    exact ⟨hlive'.lt, hlive'.names .write⟩

/-- Removing hands the region from the object to the worker. -/
theorem Inv.remove (h : Inv s) {objectId rawToken : String} {obj : ObjectRecord} {store : State}
    (hcall : removeObject env objectId rawToken s.store = .ok obj store) :
    Inv ({ s with store := store }.at w (.removed obj)) := by
  obtain ⟨hobj, hobjects, hregions⟩ := removeObject_ok hcall
  have howned : s.Owns (.object objectId) obj.region := ⟨obj, hobj, rfl⟩
  refine h.pass hregions (.worker w) (h.live _ _ howned) ?_ trivial
  intro a r ha
  have hne : a ≠ .object objectId → s.Owns a r → r ≠ obj.region := by
    intro hne ha hr
    rw [hr] at ha
    exact hne (h.exclusive a _ obj.region ha howned)
  cases a with
  | object o =>
    obtain ⟨obj', hobj', hr⟩ := ha
    have hobj' : store.registry.objects.get? o = some obj' := hobj'
    have ho : o ≠ objectId := by
      intro ho
      rw [hobjects, ho, Dict.get?_pop_self] at hobj'
      cases hobj'
    rw [hobjects, Dict.get?_pop_of_ne ho] at hobj'
    have ha : s.Owns (.object o) r := ⟨obj', hobj', hr⟩
    refine .inr ⟨hne ?_ ha, ha⟩
    intro heq
    cases heq
    exact ho rfl
  | worker u =>
    obtain ⟨rfl, hr⟩ | ⟨-, ha⟩ := Server.owns_at ha
    · cases hr
      exact .inl ⟨rfl, rfl⟩
    · exact .inr ⟨hne nofun ha, ha⟩

end HandOver

/-! ## Runs -/

theorem Keeps.unchanged {env : Environment} {action : Action} (h : Keeps action) {s s' : State}
    {answer : Answer} (hcall : perform env action s = .ok answer s') :
    s'.registry.objects = s.registry.objects ∧ s'.regions = s.regions := by
  have hstep : Mstore.Step env s ⟨action, .ok answer⟩ s' := hcall
  cases perform_effect hstep with
  | created => exact h.elim
  | validated => exact ⟨rfl, rfl⟩
  | issued => exact ⟨rfl, rfl⟩
  | revoked => exact ⟨rfl, rfl⟩
  | deleted => exact h.elim
  | closed => exact h.elim

theorem Inv.new : Inv (Server.new : Server W) := by
  refine ⟨?_, ?_, ?_, fun w => trivial, ?_, 0, fun n _ => rfl⟩
  · intro a region ha
    cases a with
    | object o =>
      obtain ⟨obj, hobj, -⟩ := ha
      cases hobj
    | worker w => cases ha
  · intro a b region ha
    cases a with
    | object o =>
      obtain ⟨obj, hobj, -⟩ := ha
      cases hobj
    | worker w => cases ha
  · intro n target region hd
    cases hd
  · intro x hx
    cases hx

section Steps
variable [DecidableEq W] {env : Environment} {s s' : Server W} {w : W}

theorem Inv.release (h : Inv s) {obj : ObjectRecord} {k : ℕ}
    (hplace : s.worker w = .opened obj k) : Inv ((s.free k).at w .idle) := by
  have hfits := h.fits w
  rw [hplace] at hfits
  have hidle : Inv (s.at w .idle) := h.move rfl trivial
  refine hidle.free (d := ⟨.memory obj.region, .worker w⟩) hfits ?_ nofun
  intro u obj' j heq
  cases heq
  rw [Server.at_worker_self]
  exact Place.noConfusion

theorem Inv.closeOwned (h : Inv s) {region n : ℕ} (howned : s.Owns (.worker w) region)
    (hfd : fdOf s.store region = n) :
    Inv ((s.at w .idle).free n) ∧
      ∀ m d, ((s.at w .idle).free n).table m = some d → d.holder ≠ .region region := by
  obtain ⟨n', hn', hd⟩ := h.live _ _ howned
  obtain rfl : n' = n := by omega
  refine ⟨?_, ?_⟩
  · have hidle : Inv (s.at w .idle) := h.move rfl trivial
    refine hidle.free hd nofun ?_
    intro a r ha heq
    cases heq
    have hs : s.Owns a region := by
      cases a with
      | object o => exact ha
      | worker u =>
        obtain ⟨-, hr⟩ | ⟨-, ha⟩ := Server.owns_at ha
        · cases hr
        · exact ha
    cases h.exclusive a _ region hs howned
    obtain ⟨-, hr⟩ | ⟨hne, -⟩ := Server.owns_at ha
    · cases hr
    · exact hne rfl
  · intro m d hm heq
    by_cases hmn : m = n'
    · rw [hmn, Server.free_table_self] at hm
      cases hm
    · rw [Server.free_table_ne hmn] at hm
      obtain ⟨target, holder⟩ := d
      cases heq
      have hm' := (h.held m target region hm).2
      omega

theorem Inv.step (h : Inv s) (hstep : Step env s s') (hspares : s.Spares s') : Inv s' := by
  cases hstep with
  | refuse action failure store hcall =>
    have hsame := perform_safe action _ _ _ hcall
    exact h.quiet (congrArg Registry.objects hsame.registry) hsame.regions
  | call action answer store hkeeps hcall =>
    obtain ⟨hobjects, hregions⟩ := hkeeps.unchanged hcall
    exact h.quiet hobjects hregions
  | create w size shape dtype order metadata n hplace hsize hfree =>
    refine h.create size shape dtype order metadata hfree
      (.memfd n size ("mstore-" ++ env.uuid4 s.store.ticks)) ?_ ?_ ?_ _ ?_
    · rfl
    · rfl
    · simp [fdOf]
    · exact hspares n _ hfree Server.take_table_self
  | truncateFailed w size shape dtype order metadata objectId region n hplace hfd =>
    have howned : s.Owns (.worker w) region := by
      rw [Server.owns_worker, hplace]
      rfl
    obtain ⟨hclosed, hnone⟩ := h.closeOwned howned hfd
    exact hclosed.closeRegion hnone
  | register w size shape dtype order metadata objectId region obj token store hplace hcall =>
    exact h.register hplace hcall
  | «open» w objectId rawToken mode obj token store hplace hcall =>
    obtain ⟨hauthorised, -, rfl⟩ := validate_permission hcall
    have hquiet : Inv { s with store := { s.store with ticks := s.store.ticks + 1 } } :=
      h.quiet rfl rfl
    have hlive := hquiet.live (.object objectId) obj.region ⟨obj, hauthorised.registered, rfl⟩
    exact hquiet.move rfl ⟨hlive.lt, hlive.names mode⟩
  | read w obj mode hplace =>
    have hfits := h.fits w
    rw [hplace] at hfits
    exact h.move rfl ⟨hfits.1, hfits.2, .inl rfl⟩
  | duplicate w obj mode n k d hplace hd hopens hfree =>
    have hfits := h.fits w
    rw [hplace] at hfits
    have htaken : Inv (s.take k ⟨d.target, .worker w⟩) :=
      h.take hfree nofun nofun (hspares k _ hfree Server.take_table_self)
    refine htaken.move rfl ?_
    obtain rfl | hshut := hfits.2.1 n d rfl hd
    · exact Server.take_table_self
    · rw [hopens] at hshut
      cases hshut
  | duplicateFailed w obj mode fd hplace => exact h.move rfl trivial
  | send w obj k d hplace hd =>
    have hfits := h.fits w
    rw [hplace] at hfits
    have hfits : s.table k = some ⟨.memory obj.region, .worker w⟩ := hfits
    rw [hd] at hfits
    cases hfits
    have hreleased := h.release hplace
    refine ⟨hreleased.live, hreleased.exclusive, hreleased.held, hreleased.fits, ?_,
      hreleased.finite⟩
    intro x hx
    obtain hx | hx := List.mem_append.mp hx
    · exact h.sent x hx
    · rw [List.mem_singleton] at hx
      subst hx
      rfl
  | sendFailed w obj k hplace => exact h.release hplace
  | remove w objectId rawToken obj store hplace hcall => exact h.remove hcall
  | close w obj n hplace hfd =>
    have howned : s.Owns (.worker w) obj.region := by
      rw [Server.owns_worker, hplace]
      rfl
    obtain ⟨hclosed, hnone⟩ := h.closeOwned howned hfd
    have hlt := (h.live _ _ howned).lt
    have hmoved : Inv (((s.at w .idle).free n).at w (.closing obj)) :=
      hclosed.move rfl ⟨hlt, hnone⟩
    have heq : ((s.at w .idle).free n).at w (.closing obj) = (s.free n).at w (.closing obj) := by
      simp [Server.at, Server.free]
    rwa [heq] at hmoved
  | closeNothing w obj hplace hfd => exact h.move rfl trivial
  | forget w obj store hplace hcall =>
    have hfits := h.fits w
    rw [hplace] at hfits
    cases hcall
    refine Inv.move ?_ rfl trivial
    exact (h.closeRegion hfits.2).quiet rfl rfl
  | accept n hfree =>
    exact h.take hfree nofun nofun (hspares n _ hfree Server.take_table_self)
  | hangUp n hd => exact h.free hd nofun nofun

/-! ## Numbers that are given out too early -/

/-- A number that a worker is to duplicate is given out: it refers to something else now. -/
theorem Inv.taken (h : Inv s) (hstep : Step env s s') {n : ℕ} {d : Descriptor W}
    (hfree : s.table n = none) (hd : s'.table n = some d) {obj : ObjectRecord} {mode : Mode}
    (hreads : s.Reads w obj mode n) :
    s'.Reads w obj mode n ∧ d.target ≠ .memory obj.region ∧ ∃ k, s'.table k = none := by
  have hsame : s'.table n ≠ s.table n := by
    rw [hfree, hd]
    exact Option.some_ne_none d
  have hlt : obj.region < s.store.regions.length := by
    have hfits := h.fits w
    obtain ⟨hplace, -⟩ | hplace := hreads
    · rw [hplace] at hfits
      exact hfits.1
    · rw [hplace] at hfits
      exact hfits.1
  obtain ⟨bound, hbound⟩ := h.finite
  have hspare : ∃ k, k ≠ n ∧ s.table k = none :=
    ⟨max bound (n + 1), by omega, hbound _ (Nat.le_max_left ..)⟩
  obtain ⟨k, hk, hnone⟩ := hspare
  have htaken : ∀ m d', (s.take m d').table n = some d → n = m ∧ d = d' := by
    intro m d' hm
    by_cases hmn : n = m
    · rw [hmn, Server.take_table_self] at hm
      exact ⟨hmn, (Option.some.inj hm).symm⟩
    · rw [Server.take_table_ne hmn, hfree] at hm
      cases hm
  have hfreed : ∀ m, (s.free m).table n = some d → False := by
    intro m hm
    by_cases hmn : n = m
    · rw [hmn, Server.free_table_self] at hm
      cases hm
    · rw [Server.free_table_ne hmn, hfree] at hm
      cases hm
  cases hstep with
  | refuse => exact absurd rfl hsame
  | call => exact absurd rfl hsame
  | register => exact absurd rfl hsame
  | «open» => exact absurd rfl hsame
  | read => exact absurd rfl hsame
  | duplicateFailed => exact absurd rfl hsame
  | remove => exact absurd rfl hsame
  | closeNothing => exact absurd rfl hsame
  | forget => exact absurd rfl hsame
  | truncateFailed u size shape dtype order metadata objectId region m => exact (hfreed m hd).elim
  | send u obj' m => exact (hfreed m hd).elim
  | sendFailed u obj' m => exact (hfreed m hd).elim
  | close u obj' m => exact (hfreed m hd).elim
  | hangUp m => exact (hfreed m hd).elim
  | create u size shape dtype order metadata m hplace hsize hm =>
    obtain ⟨rfl, rfl⟩ := htaken m _ hd
    refine ⟨?_, ?_, k, (Server.take_table_ne hk).trans hnone⟩
    · have hw : w ≠ u := by
        intro hw
        subst hw
        unfold Server.Reads at hreads
        rw [hplace] at hreads
        obtain ⟨hidle, -⟩ | hidle := hreads
        · cases hidle
        · cases hidle
      unfold Server.Reads
      rw [Server.at_worker_ne hw]
      obtain ⟨hplace, hfd⟩ | hplace := hreads
      · exact .inl ⟨hplace, (fdOf_append rfl hlt).trans hfd⟩
      · exact .inr hplace
    · intro heq
      exact absurd (Target.memory.inj heq) hlt.ne'
  | duplicate u obj' mode' m j d' hplace hd' hopens hj =>
    obtain ⟨rfl, rfl⟩ := htaken j _ hd
    have hfits := h.fits u
    rw [hplace] at hfits
    have hnamed : d' = ⟨.memory obj'.region, .region obj'.region⟩ := by
      obtain hnamed | hshut := hfits.2.1 m d' rfl hd'
      · exact hnamed
      · rw [hopens] at hshut
        cases hshut
    subst hnamed
    have hm := (h.held m _ _ hd').2
    have hne : m ≠ n := by
      intro hmn
      rw [hmn, hfree] at hd'
      cases hd'
    refine ⟨?_, ?_, k, (Server.take_table_ne hk).trans hnone⟩
    · have hw : w ≠ u := by
        intro hw
        subst hw
        unfold Server.Reads at hreads
        rw [hplace] at hreads
        obtain ⟨hmapping, -⟩ | hholding := hreads
        · cases hmapping
        · have heq := (Place.holding.inj hholding).2.2
          omega
      unfold Server.Reads
      rw [Server.at_worker_ne hw]
      exact hreads
    · intro heq
      rw [Target.memory.inj heq] at hm
      obtain ⟨-, hfd⟩ | hholding := hreads
      · omega
      · have hfits := h.fits w
        rw [hholding] at hfits
        obtain hfd | hfd := hfits.2.2
        · omega
        · omega
  | accept m hm =>
    obtain ⟨rfl, rfl⟩ := htaken m _ hd
    exact ⟨hreads, nofun, k, (Server.take_table_ne hk).trans hnone⟩

/-- Once its number refers to something else, a worker may send a wrong descriptor. -/
theorem wrong_follows (env : Environment) {obj : ObjectRecord} {mode : Mode} {n : ℕ}
    {d : Descriptor W} (hreads : s.Reads w obj mode n) (hd : s.table n = some d)
    (hopens : mode.opens d.target = true) (hwrong : d.target ≠ .memory obj.region)
    (hspare : ∃ k, s.table k = none) :
    ∃ s', Relation.ReflTransGen (Step env) s s' ∧
      ∃ x ∈ s'.sent, x.target ≠ .memory x.obj.region := by
  obtain ⟨k, hk⟩ := hspare
  have hholding : ∀ s : Server W, s.worker w = .holding obj mode n → s.table n = some d →
      s.table k = none → ∃ s', Relation.ReflTransGen (Step env) s s' ∧
        ∃ x ∈ s'.sent, x.target ≠ .memory x.obj.region := by
    intro s hplace hd hk
    have hduplicate : Step env s ((s.take k ⟨d.target, .worker w⟩).at w (.opened obj k)) :=
      .duplicate w obj mode n k d hplace hd hopens hk
    have hsend := (Relation.ReflTransGen.single hduplicate).tail
      (.send w obj k ⟨d.target, .worker w⟩ Server.at_worker_self Server.take_table_self)
    exact ⟨_, hsend, ⟨obj, d.target⟩, List.mem_append_right _ (List.mem_singleton_self _), hwrong⟩
  obtain ⟨hplace, hfd⟩ | hplace := hreads
  · have hread : Step env s (s.at w (.holding obj mode (fdOf s.store obj.region))) :=
      .read w obj mode hplace
    rw [hfd] at hread
    obtain ⟨s', hrun, hsent⟩ := hholding _ Server.at_worker_self hd hk
    exact ⟨s', .head hread hrun, hsent⟩
  · exact hholding s hplace hd hk

/-- As long as no number is given out that a worker is to duplicate, each descriptor that is sent
refers to the memory of its object; a step that gives one out can be followed by a wrong one. -/
theorem opened_belongs (env : Environment)
    (hrun : Relation.ReflTransGen (fun s s' => Step env s s' ∧ s.Spares s') Server.new s) :
    (∀ x ∈ s.sent, x.target = .memory x.obj.region) ∧
      ∀ s', Step env s s' → ¬ s.Spares s' →
        ∃ s'', Relation.ReflTransGen (Step env) s' s'' ∧
          ∃ x ∈ s''.sent, x.target ≠ .memory x.obj.region := by
  have h : Inv s := by
    induction hrun with
    | refl => exact Inv.new
    | tail _ hlast ih => exact ih.step hlast.1 hlast.2
  refine ⟨h.sent, ?_⟩
  intro s' hstep hspares
  unfold Server.Spares at hspares
  push Not at hspares
  obtain ⟨n, d, hfree, hd, w, obj, mode, hreads, hopens⟩ := hspares
  obtain ⟨hreads', hwrong, hspare⟩ := h.taken hstep hfree hd hreads
  exact wrong_follows env hreads' hd (Bool.not_eq_false _ |>.mp hopens) hwrong hspare

end Steps

theorem spares_of_table {s s' : Server W}
    (h : ∀ n d, s'.table n = some d → s.table n = some d) : s.Spares s' := by
  intro n d hfree hd
  rw [h n d hd] at hfree
  cases hfree

theorem spares_of_free {s s' : Server W} {k : ℕ}
    (htable : s'.table = (s.free k).table) : s.Spares s' := by
  apply spares_of_table
  intro n d hd
  rw [htable] at hd
  by_cases hn : n = k
  · rw [hn, Server.free_table_self] at hd
    cases hd
  · rwa [Server.free_table_ne hn] at hd

/-- A number that nobody is to duplicate is given out. -/
theorem spares_of_take {s s' : Server W} (k : ℕ) (d : Descriptor W)
    (htable : s'.table = (s.take k d).table) (h : ∀ w obj mode, ¬ s.Reads w obj mode k) :
    s.Spares s' := by
  intro n d' hfree hd w obj mode hreads
  rw [htable] at hd
  by_cases hn : n = k
  · rw [hn] at hreads
    exact absurd hreads (h w obj mode)
  · rw [Server.take_table_ne hn, hfree] at hd
    cases hd

/-- Two workers are busy, and neither is to duplicate the number. -/
theorem not_reads_two {s : Server ℕ} {k : ℤ} (h0 : ∀ obj mode, ¬ s.Reads 0 obj mode k)
    (h1 : ∀ obj mode, ¬ s.Reads 1 obj mode k) (hidle : ∀ w, w ≠ 0 → w ≠ 1 → s.worker w = .idle)
    (w : ℕ) (obj : ObjectRecord) (mode : Mode) : ¬ s.Reads w obj mode k := by
  obtain rfl | rfl | ⟨hne0, hne1⟩ : w = 0 ∨ w = 1 ∨ (w ≠ 0 ∧ w ≠ 1) := by omega
  · exact h0 obj mode
  · exact h1 obj mode
  · rintro (⟨hplace, -⟩ | hplace)
    · rw [hidle w hne0 hne1] at hplace
      cases hplace
    · rw [hidle w hne0 hne1] at hplace
      cases hplace

/-- While one worker creates an object, another opens it; both send a descriptor of it. -/
theorem opened_belongs_open : ∃ s : Server ℕ, s.sent.length = 2 ∧
    ∀ x ∈ s.sent, x.target = .memory x.obj.region := by
  have hcreate := @Step.create ℕ _ plainEnvironment Server.new 0 8 (.leaf .none) (.leaf .none)
    (.leaf (.str "C")) (.dict []) 3 rfl (by decide) rfl
  have hresting : ∀ w obj mode, ¬ (Server.new : Server ℕ).Reads w obj mode 3 := by
    intro w obj mode hreads
    obtain ⟨hplace, -⟩ | hplace := hreads
    · cases hplace
    · cases hplace
  have hcreated : Relation.ReflTransGen
      (fun s s' : Server ℕ => Step plainEnvironment s s' ∧ s.Spares s') Server.new _ :=
    .single ⟨hcreate, spares_of_take 3 ⟨.memory 0, .region 0⟩ rfl hresting⟩
  have hregistered := hcreated.tail ⟨.register 0 8 _ _ _ _ _ 0 _ _ _ rfl rfl,
    spares_of_table fun _ _ hd => hd⟩
  have hread := hregistered.tail ⟨.read 0 _ .write rfl, spares_of_table fun _ _ hd => hd⟩
  have hopened := hread.tail ⟨.open 1 (letters 'o' 0) (letters 't' 2) .write _ _ _ rfl rfl,
    spares_of_table fun _ _ hd => hd⟩
  have hduplicated := hopened.tail ⟨.duplicate 0 _ .write 3 4 _ rfl rfl rfl rfl,
    spares_of_take 4 ⟨.memory 0, .worker 0⟩ rfl (not_reads_two (by
      rintro obj mode (⟨hplace, -⟩ | hplace) <;> cases hplace) (by
      rintro obj mode (⟨hplace, hfd⟩ | hplace) <;> cases hplace
      cases hfd) fun w h0 h1 => by simp [Server.take, Server.new, h0, h1])⟩
  have hread' := hduplicated.tail ⟨.read 1 _ .write rfl, spares_of_table fun _ _ hd => hd⟩
  have hduplicated' := hread'.tail ⟨.duplicate 1 _ .write 3 5 _ rfl rfl rfl rfl,
    spares_of_take 5 ⟨.memory 0, .worker 1⟩ rfl (not_reads_two (by
      rintro obj mode (⟨hplace, -⟩ | hplace) <;> cases hplace) (by
      rintro obj mode (⟨hplace, -⟩ | hplace) <;> cases hplace)
      fun w h0 h1 => by simp [Server.take, Server.new, h0, h1])⟩
  have hsent := hduplicated'.tail ⟨.send 1 _ 5 _ rfl rfl, spares_of_free rfl⟩
  have hsent' := hsent.tail ⟨.send 0 _ 4 _ rfl rfl, spares_of_free rfl⟩
  exact ⟨_, rfl, (opened_belongs plainEnvironment hsent').1⟩

/-- An object is deleted while it is being opened, and a new one takes its number: the client that
asked for the first object gets the memory of the second. -/
theorem foreign_memory : ∃ s : Server ℕ,
    Relation.ReflTransGen (Step plainEnvironment) Server.new s ∧
      ∃ x ∈ s.sent, x.target ≠ .memory x.obj.region := by
  have hcreate := Relation.ReflTransGen.single (@Step.create ℕ _ plainEnvironment Server.new 0 8
    (.leaf .none) (.leaf .none) (.leaf (.str "C")) (.dict []) 3 rfl (by decide) rfl)
  have hregister := hcreate.tail (.register 0 8 _ _ _ _ _ 0 _ _ _ rfl rfl)
  have hopen := hregister.tail
    (.open 1 (letters 'o' 0) (letters 't' 2) .write _ _ _ rfl rfl)
  have hread := hopen.tail (.read 1 _ .write rfl)
  have hremove := hread.tail (.remove 2 (letters 'o' 0) (letters 't' 2) _ _ rfl rfl)
  have hclose := hremove.tail (.close 2 _ 3 rfl rfl)
  have hcreate' := hclose.tail (.create 3 8 (.leaf .none) (.leaf .none) (.leaf (.str "C"))
    (.dict []) 3 rfl (by decide) rfl)
  have hduplicate := hcreate'.tail (.duplicate 1 _ .write 3 4 _ rfl rfl rfl rfl)
  have hsend := hduplicate.tail (.send 1 _ 4 _ rfl rfl)
  exact ⟨_, hsend, _, List.mem_singleton_self _, nofun⟩

end Npb.Mstore.Descriptors
