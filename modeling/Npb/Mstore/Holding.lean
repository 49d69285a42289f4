import Npb.Mstore.Responses

/-! # The holder of the lock

A step of the thread that holds the lock of a client touches nothing but the connection that the
client is on (`Step.acts`). So the invariant of a client is kept while other connections go on
(`Inv.elsewhere`). -/

namespace Npb.Mstore.Control
set_option autoImplicit false

variable {T : Type}

/-! ## What the holder of the lock does -/

/-- The connections that the client is on or has a response from. -/
def Client.Uses (s : Client T) (conn : ℕ) : Prop :=
  s.current = some conn ∨ ∃ r ∈ s.log, r.conn = conn

/-- The connections after a step: one more, or more on the one that the client is on. -/
inductive Grown (current : Option ℕ) (links : List Link) : List Link → Prop
  | same : Grown current links links
  | new (l : Link) : Grown current links (links ++ [l])
  | set (conn : ℕ) (l l' : Link) (hcurrent : current = some conn) (hl : links[conn]? = some l)
    (hgrows : l.Grows l') : Grown current links (links.set conn l')

section Growing
variable {current : Option ℕ} {links links' : List Link} {conn : ℕ} {l : Link}

theorem Grown.elsewhere (h : Grown current links links') (hconn : conn < links.length)
    (hne : current ≠ some conn) : links'[conn]? = links[conn]? := by
  cases h with
  | same => rfl
  | new l => exact List.getElem?_append_left hconn
  | set conn' l l' hcurrent hl hgrows =>
    apply List.getElem?_set_ne
    rintro rfl
    exact hne hcurrent

theorem Grown.grows (h : Grown current links links') (hl : links[conn]? = some l) :
    ∃ l', links'[conn]? = some l' ∧ l.Grows l' := by
  have hlt := (List.getElem?_eq_some_iff.mp hl).1
  cases h with
  | same => exact ⟨l, hl, .refl l⟩
  | new l' => exact ⟨l, (List.getElem?_append_left hlt).trans hl, .refl l⟩
  | set conn' k k' hcurrent hk hgrows =>
    by_cases hconn : conn' = conn
    · subst hconn
      cases hk.symm.trans hl
      exact ⟨k', List.getElem?_set_self hlt, hgrows⟩
    · exact ⟨l, (List.getElem?_set_ne hconn).trans hl, .refl l⟩

end Growing

/-- What a step does to the client of the thread that holds the lock. -/
structure Acts (t : T) (s s' : Client T) : Prop where
  others : ∀ u, u ≠ t → s'.thread u = s.thread u
  holder : (s'.thread t = .idle ∧ s'.holder = none) ∨ (s'.thread t ≠ .idle ∧ s'.holder = some t)
  links : Grown s.current s.links s'.links
  uses : ∀ conn, s'.Uses conn → s.Uses conn ∨ conn = s.links.length

section Recovering
variable {s : Client T}

theorem Client.recover_uses {e : WireError} {conn : ℕ} (h : (s.recover e).Uses conn) :
    s.Uses conn := by
  unfold Client.recover at h
  split at h
  · exact h.imp_left fun h => by cases h
  · exact h

theorem Client.recover_links (s : Client T) (e : WireError) : (s.recover e).links = s.links := by
  unfold Client.recover
  split <;> rfl

theorem Client.recover_thread (s : Client T) (e : WireError) :
    (s.recover e).thread = s.thread := by
  unfold Client.recover
  split <;> rfl

end Recovering

section Acting
variable [DecidableEq T] {text : JsonText} {s s' : Client T} {t : T}

theorem Acts.move {place : Place} (hthread : s'.thread = Function.update s.thread t place)
    (hne : place ≠ .idle) (hholder : s'.holder = some t)
    (hlinks : Grown s.current s.links s'.links)
    (hcurrent : ∀ conn ∈ s'.current, s.current = some conn ∨ conn = s.links.length)
    (hlog : s'.log = s.log) : Acts t s s' where
  others u hu := by rw [hthread, Function.update_of_ne hu]
  holder := .inr ⟨by rw [hthread, Function.update_self]; exact hne, hholder⟩
  links := hlinks
  uses conn h := by
    obtain h | h := h
    · exact (hcurrent conn h).imp_left .inl
    · rw [hlog] at h
      exact .inl (.inr h)

theorem Acts.leave (hthread : s'.thread = Function.update s.thread t .idle)
    (hholder : s'.holder = none) (hlinks : s'.links = s.links)
    (huses : ∀ conn, s'.Uses conn → s.Uses conn) : Acts t s s' where
  others u hu := by rw [hthread, Function.update_of_ne hu]
  holder := .inl ⟨by rw [hthread, Function.update_self], hholder⟩
  links := by
    rw [hlinks]
    exact .same
  uses conn h := .inl (huses conn h)

theorem Step.acts (h : Inv text s) (hholder : s.holder = some t)
    (hstep : Step text s (some t) s') : Acts t s s' := by
  have hbusy : ∀ place, s.thread t = place → s.Busy text place := by
    intro place hplace
    rw [← hplace]
    exact h.busy t
  have hdropped : ∀ conn, Client.Uses { s with current := none } conn → s.Uses conn :=
    fun conn h => h.imp_left fun h => by cases h
  cases hstep with
  | enter _ message hlock | close _ hlock =>
    rw [hholder] at hlock
    cases hlock
  | refuse _ message hplace hclosed => exact .leave rfl rfl rfl fun _ h => h
  | connectFailed _ message hplace => exact .leave rfl rfl rfl fun _ h => h
  | connect _ message transport hplace =>
    refine .move rfl Place.noConfusion hholder (.new _) (fun conn hconn => .inr ?_) rfl
    cases hconn
    rfl
  | reuse _ message conn hplace hclosed hcurrent =>
    exact .move rfl Place.noConfusion hholder .same (fun _ => .inl) rfl
  | encodeFailed _ message conn e | decodeFailed _ message conn start stop buf fd l e =>
    refine .leave ?_ rfl (s.recover_links e) fun _ h => s.recover_uses h
    show Function.update (s.recover e).thread t .idle = _
    rw [s.recover_thread e]
  | encode _ message conn l frame =>
    exact .move rfl Place.noConfusion hholder .same (fun _ => .inl) rfl
  | send _ message conn start n rest l hplace hl =>
    have hcurrent := (hbusy _ hplace).1
    refine .move rfl ?_ hholder (.set conn l _ hcurrent hl ⟨List.prefix_append .., List.prefix_rfl⟩)
      (fun _ => .inl) rfl
    split <;> exact Place.noConfusion
  | sendFailed | receiveFailed => exact .leave rfl rfl rfl hdropped
  | receive _ message conn start stop limit buf fd l chunk hplace hl =>
    have hcurrent := (hbusy _ hplace).1
    exact .move rfl Place.noConfusion hholder
      (.set conn l _ hcurrent hl ⟨List.prefix_rfl, List.prefix_rfl⟩)
      (fun _ => .inl) rfl
  | finish _ message conn start stop buf fd l response hplace =>
    refine .leave rfl rfl rfl fun conn' h => ?_
    obtain h | ⟨r, hr, rfl⟩ := h
    · exact .inl h
    · obtain hr | hr := List.mem_append.mp hr
      · exact .inr ⟨r, hr, rfl⟩
      · rw [List.mem_singleton.mp hr]
        exact .inl (hbusy _ hplace).1

end Acting

/-! ## What other clients do -/

section Elsewhere
variable {text : JsonText} {s : Client T} {links : List Link}

theorem Client.Calm.of_same {conn : ℕ} (h : s.Calm conn)
    (hsame : links[conn]? = s.links[conn]?) : Client.Calm { s with links := links } conn := by
  obtain ⟨l, hl, hcalm⟩ := h
  exact ⟨l, hsame.trans hl, hcalm⟩

/-- The connections of other clients go on. -/
theorem Inv.elsewhere (h : Inv text s) (hordered : ∀ l ∈ links, l.Ordered)
    (hsame : ∀ conn, s.current = some conn → links[conn]? = s.links[conn]?)
    (hgrows : ∀ (conn : ℕ) (l : Link), s.links[conn]? = some l →
      ∃ l', links[conn]? = some l' ∧ l.Grows l') :
    Inv text { s with links := links } where
  ordered := hordered
  idle := h.idle
  resting hfree conn hconn := (h.resting hfree conn hconn).of_same (hsame conn hconn)
  busy t := by
    have hbusy := h.busy t
    show Client.Busy text _ (s.thread t)
    cases hplace : s.thread t with
    | idle => trivial
    | entered message =>
      rw [hplace] at hbusy
      exact fun conn hconn => (hbusy conn hconn).of_same (hsame conn hconn)
    | connected message conn =>
      rw [hplace] at hbusy
      exact ⟨hbusy.1, hbusy.2.of_same (hsame conn hbusy.1)⟩
    | sending message conn | receiving message conn =>
      rw [hplace] at hbusy
      obtain ⟨hcurrent, hbefore, l, frame, hl, hbusy⟩ := hbusy
      exact ⟨hcurrent, hbefore, l, frame, (hsame conn hcurrent).trans hl, hbusy⟩
  found r hr := (h.found r hr).mono fun l hl => hgrows r.conn l hl
  apart := h.apart

theorem Inv.uses_lt (h : Inv text s)
    (hholder : ∀ t, s.holder = some t → s.thread t ≠ .idle) {conn : ℕ} (huses : s.Uses conn) :
    conn < s.links.length := by
  have hcalm : s.Calm conn → conn < s.links.length := by
    rintro ⟨l, hl, -⟩
    exact (List.getElem?_eq_some_iff.mp hl).1
  obtain hcurrent | ⟨r, hr, rfl⟩ := huses
  · cases hlock : s.holder with
    | none => exact hcalm (h.resting hlock conn hcurrent)
    | some t =>
      have hbusy := h.busy t
      cases hplace : s.thread t with
      | idle => exact absurd hplace (hholder t hlock)
      | entered message =>
        rw [hplace] at hbusy
        exact hcalm (hbusy conn hcurrent)
      | connected message conn' =>
        rw [hplace] at hbusy
        cases hbusy.1.symm.trans hcurrent
        exact hcalm hbusy.2
      | sending message conn' | receiving message conn' =>
        rw [hplace] at hbusy
        obtain ⟨hcurrent', -, l, -, hl, -⟩ := hbusy
        cases hcurrent'.symm.trans hcurrent
        exact (List.getElem?_eq_some_iff.mp hl).1
  · obtain ⟨l, -, hl, -⟩ := h.found r hr
    exact (List.getElem?_eq_some_iff.mp hl).1

end Elsewhere
end Npb.Mstore.Control
