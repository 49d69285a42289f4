import Npb.Mstore.Requests

/-! # Responses match requests

In every run of the client and its servers, each response that a request returns was decoded from
the answer to the frame of that same request (`responses_match`). -/

namespace Npb.Mstore.Control
set_option autoImplicit false

variable {T : Type}

/-! ## The invariant -/

section Invariant
variable (text : JsonText)

/-- The connection is there and calm. -/
def Client.Calm (s : Client T) (conn : ℕ) : Prop := ∃ l, s.links[conn]? = some l ∧ l.Calm

/-- What holds whenever the lock is free. -/
def Client.Resting (s : Client T) : Prop := ∀ conn ∈ s.current, s.Calm conn

/-- Every request of the log on this connection was sent before the place. -/
def Client.Before (s : Client T) (conn place : ℕ) : Prop :=
  ∀ r ∈ s.log, r.conn = conn → r.stop ≤ place

/-- What holds while a thread is at a place in `_request`. -/
def Client.Busy (s : Client T) : Place → Prop
  | .idle => True
  | .entered _ => s.Resting
  | .connected _ conn => s.current = some conn ∧ s.Calm conn
  | .sending message conn start rest => s.current = some conn ∧ s.Before conn start ∧
      ∃ l frame, s.links[conn]? = some l ∧ encodeFrame text message = .ok frame ∧
        l.Sending frame start rest
  | .receiving message conn start stop buf fd => s.current = some conn ∧ s.Before conn start ∧
      ∃ l frame, s.links[conn]? = some l ∧ encodeFrame text message = .ok frame ∧
        l.Receiving frame start stop buf fd

/-- The response answers the frame of its request. -/
def Returned.Found (links : List Link) (r : Returned) : Prop :=
  ∃ l a, links[r.conn]? = some l ∧ a ∈ l.answers ∧ a.start = r.start ∧ a.stop = r.stop ∧
    decodeFrame text a.wire = .ok r.response ∧ (∀ d ∈ r.fd, d ∈ a.fd) ∧
    r.stop ≤ l.outgoing.length ∧
    encodeFrame text r.message = .ok ((l.outgoing.take r.stop).drop r.start)

structure Inv (s : Client T) : Prop where
  ordered : ∀ l ∈ s.links, l.Ordered
  idle : ∀ t, s.holder ≠ some t → s.thread t = .idle
  resting : s.holder = none → s.Resting
  busy : ∀ t, s.Busy text (s.thread t)
  found : ∀ r ∈ s.log, r.Found text s.links
  apart : s.log.Pairwise fun r r' => r.conn = r'.conn → r.stop ≤ r'.start

end Invariant

/-! ## Connections only grow -/

/-- What a connection has carried is not changed. -/
structure Link.Grows (l l' : Link) : Prop where
  outgoing : l.outgoing <+: l'.outgoing
  answers : l.answers <+: l'.answers

theorem Link.Grows.refl (l : Link) : l.Grows l := ⟨List.prefix_refl _, List.prefix_refl _⟩

section Growth
variable {text : JsonText} {links : List Link} {conn : ℕ} {l l' : Link} {r : Returned}

theorem Returned.Found.mono (h : r.Found text links) {links' : List Link}
    (hgrows : ∀ l, links[r.conn]? = some l → ∃ l', links'[r.conn]? = some l' ∧ l.Grows l') :
    r.Found text links' := by
  obtain ⟨l, a, hl, ha, hstart, hstop, hdecode, hfd, hle, hencode⟩ := h
  obtain ⟨l', hl', hg⟩ := hgrows l hl
  obtain ⟨more, hmore⟩ := hg.outgoing
  have htake : l'.outgoing.take r.stop = l.outgoing.take r.stop := by
    rw [← hmore, List.take_append_of_le_length hle]
  refine ⟨l', a, hl', hg.answers.subset ha, hstart, hstop, hdecode, hfd, ?_, ?_⟩
  · exact hle.trans hg.outgoing.length_le
  · rw [htake]
    exact hencode

theorem Returned.Found.set (h : r.Found text links) (hl : links[conn]? = some l)
    (hg : l.Grows l') : r.Found text (links.set conn l') := by
  apply h.mono
  intro k hk
  by_cases hconn : conn = r.conn
  · subst hconn
    rw [hl] at hk
    cases hk
    refine ⟨l', ?_, hg⟩
    rw [List.getElem?_set_self]
    exact (List.getElem?_eq_some_iff.mp hl).1
  · refine ⟨k, ?_, .refl k⟩
    rw [List.getElem?_set_ne hconn]
    exact hk

theorem Returned.Found.append (h : r.Found text links) (l' : Link) :
    r.Found text (links ++ [l']) := by
  apply h.mono
  intro k hk
  refine ⟨k, ?_, .refl k⟩
  rw [List.getElem?_append_left (List.getElem?_eq_some_iff.mp hk).1]
  exact hk

theorem ordered_set (h : ∀ k ∈ links, k.Ordered) (hl : l'.Ordered) :
    ∀ k ∈ links.set conn l', k.Ordered := by
  intro k hk
  obtain hk | rfl := List.mem_or_eq_of_mem_set hk
  · exact h k hk
  · exact hl

end Growth

section Links
variable {s : Client T} {conn conn' : ℕ} {l l' : Link}

theorem Client.links_setLink_self (hl : s.links[conn]? = some l) :
    (s.setLink conn l').links[conn]? = some l' := by
  unfold Client.setLink
  rw [List.getElem?_set_self]
  exact (List.getElem?_eq_some_iff.mp hl).1

theorem Client.links_setLink_ne (hne : conn' ≠ conn) :
    (s.setLink conn' l').links[conn]? = s.links[conn]? :=
  List.getElem?_set_ne hne

theorem Client.resting_of_calm (hcurrent : s.current = some conn) (h : s.Calm conn) :
    s.Resting := by
  intro conn' hconn'
  rw [hcurrent] at hconn'
  cases hconn'
  exact h

theorem Client.Calm.setLink (h : s.Calm conn) (hl : s.links[conn']? = some l)
    (hpending : l.Pending) : (s.setLink conn' l').Calm conn := by
  obtain ⟨k, hk, hcalm⟩ := h
  by_cases hconn : conn' = conn
  · subst hconn
    rw [hl] at hk
    cases hk
    exact absurd hpending hcalm.not_pending
  · refine ⟨k, ?_, hcalm⟩
    rw [Client.links_setLink_ne hconn]
    exact hk

end Links

/-! ## The state at one moment -/

section Moments
variable {text : JsonText} {s : Client T} {t : T}

theorem Inv.new (text : JsonText) : Inv text (Client.new : Client T) := by
  refine ⟨?_, fun t _ => rfl, ?_, fun t => trivial, ?_, .nil⟩
  · exact fun l hl => absurd hl List.not_mem_nil
  · exact fun _ conn hconn => by cases hconn
  · exact fun r hr => absurd hr List.not_mem_nil

/-- A thread that is in `_request` holds the lock. -/
theorem Inv.holder_eq (h : Inv text s) (ht : s.thread t ≠ .idle) : s.holder = some t := by
  by_contra hne
  exact ht (h.idle t hne)

/-- A thread that has read a whole frame leaves a calm connection. -/
theorem Inv.complete (h : Inv text s) {message : Message} {conn start stop : ℕ}
    {buf : List UInt8} {fd : Option ℕ} {l : Link}
    (hplace : s.thread t = .receiving message conn start stop buf fd)
    (hl : s.links[conn]? = some l)
    (hend : ∀ limit, received text l.transport buf ≠ .more limit)
    (hcaught : ∀ e, received text l.transport buf = .failed e → e.caught = false) :
    s.Resting ∧ s.Before conn start ∧ l.outgoing.length = stop ∧
      encodeFrame text message = .ok (l.outgoing.drop start) ∧
      ∃ a ∈ l.answers, a.start = start ∧ a.stop = stop ∧ buf = a.wire ∧ ∀ d ∈ fd, d ∈ a.fd := by
  have hbusy := h.busy t
  rw [hplace] at hbusy
  obtain ⟨hcurrent, hbefore, l', frame, hl', hframe, hreceiving⟩ := hbusy
  rw [hl] at hl'
  cases hl'
  obtain ⟨hcalm, hanswer⟩ := hreceiving.complete hend hcaught
  refine ⟨Client.resting_of_calm hcurrent ⟨l, hl, hcalm⟩, hbefore, hreceiving.whole, ?_, hanswer⟩
  rw [hframe, hreceiving.sent]

theorem Inv.serve (h : Inv text s) {conn : ℕ} {l : Link} {answer : Option Answer}
    (hl : s.links[conn]? = some l) (hpending : l.Pending)
    (hanswer : ∀ a ∈ answer, a.start = l.parsed ∧ a.stop = l.frameEnd) :
    Inv text (s.setLink conn
      { l with parsed := l.frameEnd, answers := l.answers ++ answer.toList }) := by
  have hordered := h.ordered l (List.mem_of_getElem? hl)
  have hresting : s.Resting → (s.setLink conn
      { l with parsed := l.frameEnd, answers := l.answers ++ answer.toList }).Resting :=
    fun hrest k hk => (hrest k hk).setLink hl hpending
  refine ⟨ordered_set h.ordered (hordered.serve hanswer rfl), h.idle,
    fun hnone => hresting (h.resting hnone), ?_, ?_, h.apart⟩
  · intro t
    have hbusy := h.busy t
    show Client.Busy text _ (s.thread t)
    cases hplace : s.thread t with
    | idle => trivial
    | entered message =>
      rw [hplace] at hbusy
      exact hresting hbusy
    | connected message k =>
      rw [hplace] at hbusy
      exact ⟨hbusy.1, hbusy.2.setLink hl hpending⟩
    | sending message k start rest =>
      rw [hplace] at hbusy
      obtain ⟨hcurrent, hbefore, l', frame, hl', hframe, hsending⟩ := hbusy
      by_cases hk : conn = k
      · subst hk
        rw [hl] at hl'
        cases hl'
        exact absurd hpending (hsending.not_pending hframe)
      · refine ⟨hcurrent, hbefore, l', frame, ?_, hframe, hsending⟩
        rw [Client.links_setLink_ne hk]
        exact hl'
    | receiving message k start stop buf fd =>
      rw [hplace] at hbusy
      obtain ⟨hcurrent, hbefore, l', frame, hl', hframe, hreceiving⟩ := hbusy
      by_cases hk : conn = k
      · subst hk
        rw [hl] at hl'
        cases hl'
        exact ⟨hcurrent, hbefore, _, frame, Client.links_setLink_self hl, hframe,
          hreceiving.serve hframe hpending hanswer⟩
      · refine ⟨hcurrent, hbefore, l', frame, ?_, hframe, hreceiving⟩
        rw [Client.links_setLink_ne hk]
        exact hl'
  · exact fun r hr => (h.found r hr).set hl ⟨List.prefix_refl _, List.prefix_append _ _⟩

end Moments

/-! ## Steps of a thread -/

section Steps
variable [DecidableEq T] {text : JsonText} {s : Client T} {t : T}

theorem Inv.idle_update (h : Inv text s) (hlock : s.holder = none ∨ s.holder = some t)
    (place : Place) {u : T} (hu : u ≠ t) : Function.update s.thread t place u = .idle := by
  rw [Function.update_of_ne hu]
  apply h.idle u
  obtain hlock | hlock := hlock
  · rw [hlock]
    exact Option.some_ne_none u |>.symm
  · rw [hlock]
    intro heq
    exact hu (Option.some.inj heq).symm

theorem Inv.move (h : Inv text s) (hlock : s.holder = none ∨ s.holder = some t) {s' : Client T}
    {place : Place} (hholder : s'.holder = some t)
    (hthread : s'.thread = Function.update s.thread t place) (hlog : s'.log = s.log)
    (hordered : ∀ l ∈ s'.links, l.Ordered) (hfound : ∀ r ∈ s.log, r.Found text s'.links)
    (hbusy : s'.Busy text place) : Inv text s' := by
  refine ⟨hordered, ?_, ?_, ?_, ?_, ?_⟩
  · intro u hu
    rw [hthread]
    apply h.idle_update hlock
    intro heq
    rw [heq] at hu
    exact hu hholder
  · intro hnone
    rw [hholder] at hnone
    cases hnone
  · intro u
    rw [hthread]
    by_cases hu : u = t
    · subst hu
      rw [Function.update_self]
      exact hbusy
    · rw [h.idle_update hlock place hu]
      trivial
  · rw [hlog]
    exact hfound
  · rw [hlog]
    exact h.apart

/-- The holder leaves the lock. -/
theorem Inv.leave (h : Inv text s) (ht : s.thread t ≠ .idle) {s' : Client T}
    (hthread : s'.thread = Function.update s.thread t .idle) (hlinks : s'.links = s.links)
    (hresting : s'.Resting)
    (hfound : ∀ r ∈ s'.log, r.Found text s.links)
    (hapart : s'.log.Pairwise fun r r' => r.conn = r'.conn → r.stop ≤ r'.start) : Inv text s' := by
  have hidle : ∀ u, s'.thread u = .idle := by
    intro u
    rw [hthread]
    by_cases hu : u = t
    · rw [hu, Function.update_self]
    · exact h.idle_update (.inr (h.holder_eq ht)) _ hu
  refine ⟨?_, fun u _ => hidle u, fun _ => hresting, ?_, ?_, hapart⟩
  · rw [hlinks]
    exact h.ordered
  · intro u
    rw [hidle u]
    trivial
  · rw [hlinks]
    exact hfound

/-- The holder leaves without a response; it keeps the connection or drops it. -/
theorem Inv.leave_without (h : Inv text s) (ht : s.thread t ≠ .idle) {current : Option ℕ}
    (hresting : { s with current := current }.Resting) :
    Inv text ({ s with current := current }.leave t) :=
  h.leave ht rfl rfl hresting h.found h.apart

/-- After an exception the connection is dropped, or it is calm. -/
theorem Inv.leave_recover (h : Inv text s) (ht : s.thread t ≠ .idle) {e : WireError}
    (hresting : e.caught = false → s.Resting) : Inv text ((s.recover e).leave t) := by
  unfold Client.recover
  by_cases he : e.caught = true
  · rw [if_pos he]
    exact h.leave_without ht fun conn hconn => by cases hconn
  · rw [if_neg he]
    exact h.leave_without ht (hresting (Bool.eq_false_iff.mpr he))

theorem Inv.connect (h : Inv text s) {message : Message} (transport : Transport)
    (hplace : s.thread t = .entered message) :
    Inv text { s.at t (.connected message s.links.length) with
      links := s.links ++ [.new transport]
      current := some s.links.length } := by
  have hlock : s.holder = some t := h.holder_eq (by rw [hplace]; exact Place.noConfusion)
  refine h.move (.inr hlock) hlock rfl rfl ?_ ?_ ?_
  · intro l hl
    obtain hl | hl := List.mem_append.mp hl
    · exact h.ordered l hl
    · rw [List.mem_singleton] at hl
      subst hl
      exact ⟨fun a ha => absurd ha List.not_mem_nil, .nil⟩
  · exact fun r hr => (h.found r hr).append _
  · refine ⟨rfl, .new transport, ?_, rfl, rfl⟩
    exact List.getElem?_concat_length

theorem Inv.encode (h : Inv text s) {message : Message} {conn : ℕ} {l : Link}
    {frame : List UInt8} (hplace : s.thread t = .connected message conn)
    (hl : s.links[conn]? = some l) (hframe : encodeFrame text message = .ok frame) :
    Inv text (s.at t (.sending message conn l.outgoing.length frame)) := by
  have hlock : s.holder = some t := h.holder_eq (by rw [hplace]; exact Place.noConfusion)
  have hbusy := h.busy t
  rw [hplace] at hbusy
  obtain ⟨hcurrent, l', hl', hcalm⟩ := hbusy
  rw [hl] at hl'
  cases hl'
  refine h.move (.inr hlock) hlock rfl rfl h.ordered h.found ?_
  refine ⟨hcurrent, ?_, l, frame, hl, hframe, hcalm.sending hframe⟩
  intro r hr hconn
  obtain ⟨k, a, hk, -, -, -, -, -, hle, -⟩ := h.found r hr
  rw [hconn, hl] at hk
  cases hk
  exact hle

theorem Inv.send (h : Inv text s) {message : Message} {conn start n : ℕ} {rest : List UInt8}
    {l : Link} (hplace : s.thread t = .sending message conn start rest)
    (hl : s.links[conn]? = some l) (hle : n ≤ rest.length) :
    Inv text ((s.setLink conn { l with outgoing := l.outgoing ++ rest.take n }).at t
      (if n = rest.length then .receiving message conn start (l.outgoing.length + n) [] none
        else .sending message conn start (rest.drop n))) := by
  have hlock : s.holder = some t := h.holder_eq (by rw [hplace]; exact Place.noConfusion)
  have hbusy := h.busy t
  rw [hplace] at hbusy
  obtain ⟨hcurrent, hbefore, l', frame, hl', hframe, hsending⟩ := hbusy
  rw [hl] at hl'
  cases hl'
  have hordered := h.ordered l (List.mem_of_getElem? hl)
  refine h.move (.inr hlock) hlock rfl rfl ?_ ?_ ?_
  · exact ordered_set h.ordered ⟨hordered.answered, hordered.apart⟩
  · exact fun r hr => (h.found r hr).set hl ⟨List.prefix_append _ _, List.prefix_refl _⟩
  · by_cases hn : n = rest.length
    · rw [if_pos hn, hn]
      exact ⟨hcurrent, hbefore, _, frame, Client.links_setLink_self hl, hframe, hsending.last⟩
    · rw [if_neg hn]
      exact ⟨hcurrent, hbefore, _, frame, Client.links_setLink_self hl, hframe,
        hsending.more (by omega)⟩

theorem Inv.receive (h : Inv text s) {message : Message} {conn start stop limit : ℕ}
    {buf chunk : List UInt8} {fd : Option ℕ} {l : Link}
    (hplace : s.thread t = .receiving message conn start stop buf fd)
    (hl : s.links[conn]? = some l) (hchunk : l.Delivers limit chunk) :
    Inv text ((s.setLink conn { l with consumed := l.consumed + chunk.length }).at t
      (.receiving message conn start stop (buf ++ chunk)
        (if buf = [] then l.descriptor else fd))) := by
  have hlock : s.holder = some t := h.holder_eq (by rw [hplace]; exact Place.noConfusion)
  have hbusy := h.busy t
  rw [hplace] at hbusy
  obtain ⟨hcurrent, hbefore, l', frame, hl', hframe, hreceiving⟩ := hbusy
  rw [hl] at hl'
  cases hl'
  have hordered := h.ordered l (List.mem_of_getElem? hl)
  refine h.move (.inr hlock) hlock rfl rfl ?_ ?_ ?_
  · exact ordered_set h.ordered ⟨hordered.answered, hordered.apart⟩
  · exact fun r hr => (h.found r hr).set hl ⟨List.prefix_refl _, List.prefix_refl _⟩
  · exact ⟨hcurrent, hbefore, _, frame, Client.links_setLink_self hl, hframe,
      hreceiving.receive hchunk⟩

theorem Inv.finish (h : Inv text s) {message response : Message} {conn start stop : ℕ}
    {buf : List UInt8} {fd : Option ℕ} {l : Link}
    (hplace : s.thread t = .receiving message conn start stop buf fd)
    (hl : s.links[conn]? = some l) (hdone : received text l.transport buf = .done response) :
    Inv text { s.leave t with log := s.log ++ [⟨message, conn, start, stop, response, fd⟩] } := by
  have ht : s.thread t ≠ .idle := by
    rw [hplace]
    exact Place.noConfusion
  have hend : ∀ limit, received text l.transport buf ≠ .more limit := by
    intro limit hmore
    rw [hdone] at hmore
    cases hmore
  have hcaught : ∀ e, received text l.transport buf = .failed e → e.caught = false := by
    intro e he
    rw [hdone] at he
    cases he
  obtain ⟨hresting, hbefore, hwhole, hframe, a, ha, hstart, hstop, hwire, hfd⟩ :=
    h.complete hplace hl hend hcaught
  have hdecode : decodeFrame text a.wire = .ok response := by
    rw [(received_complete hend hcaught).2, hwire] at hdone
    unfold decoded at hdone
    cases hframe' : decodeFrame text a.wire with
    | error e =>
      rw [hframe'] at hdone
      cases hdone
    | ok message' =>
      rw [hframe'] at hdone
      cases hdone
      rfl
  refine h.leave ht rfl rfl hresting ?_ ?_
  · intro r hr
    obtain hr | hr := List.mem_append.mp hr
    · exact h.found r hr
    · rw [List.mem_singleton] at hr
      subst hr
      refine ⟨l, a, hl, ha, hstart, hstop, hdecode, hfd, hwhole.ge, ?_⟩
      rw [← hwhole, List.take_length]
      exact hframe
  · rw [List.pairwise_append]
    refine ⟨h.apart, List.pairwise_singleton _ _, ?_⟩
    intro r hr r' hr' hconn
    rw [List.mem_singleton] at hr'
    subst hr'
    exact hbefore r hr hconn

/-! ## Runs -/

theorem Inv.step (h : Inv text s) {event : Option T} {s' : Client T}
    (hstep : Step text s event s') : Inv text s' := by
  have hbusy : ∀ t place, s.thread t = place → s.Busy text place := by
    intro t place hplace
    rw [← hplace]
    exact h.busy t
  have hidle : ∀ t place, s.thread t = place → place ≠ .idle → s.thread t ≠ .idle := by
    intro t place hplace hne
    rw [hplace]
    exact hne
  have hdropped : { s with current := none }.Resting := fun conn hconn => by cases hconn
  cases hstep with
  | enter t message hlock hplace =>
    exact h.move (.inl hlock) rfl rfl rfl h.ordered h.found (h.resting hlock)
  | refuse t message hplace hclosed =>
    exact h.leave_without (hidle t _ hplace Place.noConfusion) (hbusy t _ hplace)
  | connectFailed t message hplace hclosed hcurrent =>
    exact h.leave_without (hidle t _ hplace Place.noConfusion) (hbusy t _ hplace)
  | connect t message transport hplace hclosed hcurrent => exact h.connect transport hplace
  | reuse t message conn hplace hclosed hcurrent =>
    have hlock := h.holder_eq (hidle t _ hplace Place.noConfusion)
    refine h.move (.inr hlock) hlock rfl rfl h.ordered h.found ?_
    exact ⟨hcurrent, hbusy t _ hplace conn hcurrent⟩
  | encodeFailed t message conn e hplace he =>
    obtain ⟨hcurrent, hcalm⟩ := hbusy t _ hplace
    exact h.leave_recover (hidle t _ hplace Place.noConfusion)
      fun _ => Client.resting_of_calm hcurrent hcalm
  | encode t message conn l frame hplace hl hframe => exact h.encode hplace hl hframe
  | send t message conn start n rest l hplace hl hn hle => exact h.send hplace hl hle
  | sendFailed t message conn start rest hplace =>
    exact h.leave_without (hidle t _ hplace Place.noConfusion) hdropped
  | receive t message conn start stop limit buf fd l chunk hplace hl hmore hchunk =>
    exact h.receive hplace hl hchunk
  | receiveFailed t message conn start stop buf fd hplace =>
    exact h.leave_without (hidle t _ hplace Place.noConfusion) hdropped
  | decodeFailed t message conn start stop buf fd l e hplace hl he =>
    refine h.leave_recover (hidle t _ hplace Place.noConfusion) ?_
    intro hcaught
    refine (h.complete hplace hl ?_ ?_).1
    · intro limit hmore
      rw [he] at hmore
      cases hmore
    · intro e' he'
      rw [he] at he'
      cases he'
      exact hcaught
  | finish t message conn start stop buf fd l response hplace hl hdone =>
    exact h.finish hplace hl hdone
  | close t hlock =>
    refine ⟨h.ordered, h.idle, fun _ => hdropped, ?_, h.found, h.apart⟩
    intro u
    have hfree : s.thread u = .idle := h.idle u (by simp [hlock])
    show Client.Busy text _ (s.thread u)
    rw [hfree]
    trivial
  | serve conn l answer hl hpending hanswer => exact h.serve hl hpending hanswer

end Steps

/-! ## Responses and requests -/

theorem Link.Ordered.unique {l : Link} (h : l.Ordered) {a b : Answer} (ha : a ∈ l.answers)
    (hb : b ∈ l.answers) (hstart : b.start = a.start) : b = a := by
  have hapart := List.pairwise_iff_getElem.mp h.apart
  obtain ⟨i, hi, rfl⟩ := List.getElem_of_mem ha
  obtain ⟨j, hj, rfl⟩ := List.getElem_of_mem hb
  have hilt := (h.answered _ ha).1
  have hjlt := (h.answered _ hb).1
  obtain hij | hij | hij := Nat.lt_trichotomy i j
  · have hle := hapart i j hi hj hij
    omega
  · subst hij
    rfl
  · have hle := hapart j i hj hi hij
    omega

/-- What the invariant says of the responses. -/
theorem Inv.matches {text : JsonText} {s : Client T} (h : Inv text s) :
    (∀ r ∈ s.log, Matches text s.links r) ∧
      s.log.Pairwise fun r r' => r.conn = r'.conn → r.start ≠ r'.start := by
  refine ⟨?_, ?_⟩
  · intro r hr
    obtain ⟨l, a, hl, ha, hstart, hstop, hdecode, hfd, -, hencode⟩ := h.found r hr
    refine ⟨⟨l, a, hl, ha, hstart, hstop, hdecode, hfd, ?_⟩, l, hl, hencode⟩
    intro b hb heq
    exact (h.ordered l (List.mem_of_getElem? hl)).unique ha hb (heq.trans hstart.symm)
  · apply h.apart.imp_of_mem
    intro r r' hr _ hle hconn heq
    obtain ⟨l, a, hl, ha, hstart, hstop, -⟩ := h.found r hr
    have hlt := ((h.ordered l (List.mem_of_getElem? hl)).answered a ha).1
    have hstop' := hle hconn
    omega

/-- Each response that was returned answers the frame of its own request, and no frame has been
answered twice. -/
theorem responses_match [DecidableEq T] (text : JsonText) {events : List (Option T)}
    {s : Client T} (hrun : Run (Step text) Client.new events s) :
    (∀ r ∈ s.log, Matches text s.links r) ∧
      s.log.Pairwise fun r r' => r.conn = r'.conn → r.start ≠ r'.start := by
  have h : Inv text s := hrun.invariant (fun _ _ _ h hstep => h.step hstep) (Inv.new text)
  exact h.matches

/-- A library that knows one message, the empty object. -/
def emptyText : JsonText := ⟨fun _ => .ok [123, 125], fun _ => .ok (.dict [])⟩

/-- Two threads make a request each, over one connection; the first is answered with a
descriptor. -/
theorem twoRequests : ∃ events, ∃ s : Client ℕ, Run (Step emptyText) Client.new events s ∧
    s.log = [⟨[], 0, 0, 6, [], some 3⟩, ⟨[], 0, 6, 12, [], none⟩] := by
  have hfirst := Run.single (@Step.enter ℕ _ emptyText Client.new 0 [] rfl rfl)
    |>.snoc (.connect 0 [] (.socket true) rfl rfl rfl)
    |>.snoc (.encode 0 [] 0 _ [0, 0, 0, 2, 123, 125] rfl rfl rfl)
    |>.snoc (.send 0 [] 0 0 6 _ _ rfl rfl (by decide) (by decide))
    |>.snoc (.serve 0 _ (some ⟨0, 6, [123, 125], some 3, by decide⟩) rfl (by decide) (by decide))
    |>.snoc (.receive 0 [] 0 0 6 _ [] none _ [0, 0, 0, 2, 123, 125] rfl rfl rfl
      ⟨by decide, by decide, Nat.le_of_ble_eq_true rfl⟩)
    |>.snoc (.finish 0 [] 0 0 6 _ _ _ [] rfl rfl rfl)
  have hsecond := hfirst
    |>.snoc (.enter 1 [] rfl rfl)
    |>.snoc (.reuse 1 [] 0 rfl rfl rfl)
    |>.snoc (.encode 1 [] 0 _ [0, 0, 0, 2, 123, 125] rfl rfl rfl)
    |>.snoc (.send 1 [] 0 6 2 _ _ rfl rfl (by decide) (by decide))
    |>.snoc (.send 1 [] 0 6 4 _ _ rfl rfl (by decide) (by decide))
    |>.snoc (.serve 0 _ (some ⟨6, 12, [123, 125], none, by decide⟩) rfl (by decide) (by decide))
    |>.snoc (.receive 1 [] 0 6 12 _ [] none _ [0, 0, 0] rfl rfl rfl
      ⟨by decide, by decide, Nat.le_of_ble_eq_true rfl⟩)
    |>.snoc (.receive 1 [] 0 6 12 _ [0, 0, 0] none _ [2] rfl rfl rfl
      ⟨by decide, by decide, Nat.le_of_ble_eq_true rfl⟩)
    |>.snoc (.receive 1 [] 0 6 12 _ [0, 0, 0, 2] none _ [123, 125] rfl rfl rfl
      ⟨by decide, by decide, Nat.le_of_ble_eq_true rfl⟩)
    |>.snoc (.finish 1 [] 0 6 12 _ _ _ [] rfl rfl rfl)
  exact ⟨_, _, hsecond, rfl⟩

theorem responses_match_twice : ∃ s : Client ℕ, s.log.length = 2 ∧
    (∀ r ∈ s.log, Matches emptyText s.links r) ∧
    s.log.Pairwise fun r r' => r.conn = r'.conn → r.start ≠ r'.start := by
  obtain ⟨events, s, hrun, hlog⟩ := twoRequests
  refine ⟨s, ?_, responses_match emptyText hrun⟩
  rw [hlog]
  rfl

end Npb.Mstore.Control
