import Npb.Mstore.Daemon
import Npb.Mstore.Integrity

/-! # Shutting the server down

When `serve_forever` has returned, every connection that was ever accepted is closed. From the
moment `_stop` is set at most one more request is received on each, and none once the registry has
been emptied (`connections_end`). -/

namespace Npb.Mstore.Daemon
set_option autoImplicit false
open Effects

variable {P : Type}

section Fields
variable {s : Server P} {conn c : ℕ} {place : Place}

@[simp] theorem Server.hangUp_closed_self : (s.hangUp conn).closed conn = true :=
  Function.update_self ..

@[simp] theorem Server.hangUp_closed_ne (h : c ≠ conn) :
    (s.hangUp conn).closed c = s.closed c :=
  Function.update_of_ne h ..

theorem Server.hangUp_closed (h : s.closed c = true) : (s.hangUp conn).closed c = true := by
  by_cases hc : c = conn
  · rw [hc, Server.hangUp_closed_self]
  · rw [Server.hangUp_closed_ne hc, h]

@[simp] theorem Server.at_worker_self : (s.at conn place).worker conn = place :=
  Function.update_self ..

@[simp] theorem Server.at_worker_ne (h : c ≠ conn) : (s.at conn place).worker c = s.worker c :=
  Function.update_of_ne h ..

end Fields

/-! ## Who hangs up -/

/-- The connections that `serve_forever` has not hung up, and has to. -/
def Main.Owes (connections : List ℕ) : Main → ℕ → Prop
  | .accepted conn, c => c = conn ∨ c ∈ connections
  | .hanging rest, c => c ∈ rest
  | .closing _, _ | .returned, _ => False
  | _, c => c ∈ connections

/-- `Registry.close` has emptied the registry. -/
def Main.Done : Main → Prop
  | .closing _ | .returned => True
  | _ => False

/-- Every open connection will be hung up by `serve_forever`, if not by its worker. -/
structure Hosted (s : Server P) : Prop where
  owed : ∀ c < s.accepted, s.closed c = false → s.main.Owes s.connections c
  quit : ∀ c, s.worker c = .unregistering → s.closed c = true
  known : ∀ c, s.worker c ≠ .absent → c < s.accepted
  enrolled : ∀ c, s.main = .accepted c ∨ s.main = .registered c →
    c < s.accepted ∧ s.worker c = .absent

theorem Hosted.new : Hosted (Server.new : Server P) where
  owed c hc := absurd hc (Nat.not_lt_zero c)
  quit c h := by cases h
  known c h := absurd rfl h
  enrolled c h := by
    obtain h | h := h
    · cases h
    · cases h

theorem Main.Owes.mono {connections connections' : List ℕ} {main : Main} {c : ℕ}
    (h : main.Owes connections c) (hsub : c ∈ connections → c ∈ connections') :
    main.Owes connections' c := by
  cases main with
  | accepted conn => exact h.imp_right hsub
  | hanging rest => exact h
  | closing objects => exact h
  | returned => exact h
  | _ => exact hsub h

section Workers
variable {env : Environment} {s s' : Server P} {e : Event} {conn : ℕ}

/-- What a worker may do to the threads and connections: it goes on from where it was started, and
hangs up before it takes its connection out of `_connections`. -/
structure Moves (s s' : Server P) (conn : ℕ) : Prop where
  started : s.worker conn ≠ .absent
  others : ∀ c, c ≠ conn → s'.worker c = s.worker c
  stop : s'.stop = s.stop
  main : s'.main = s.main
  accepted : s'.accepted = s.accepted
  closed : ∀ c, s.closed c = true → s'.closed c = true
  enrolled : ∀ c ∈ s.connections, c ∈ s'.connections ∨ c = conn ∧ s.worker conn = .unregistering
  quit : s'.worker conn = .unregistering → s'.closed conn = true

theorem moves_at {place before : Place} {store : State} (hplace : s.worker conn = before)
    (hbefore : before ≠ .absent) (hquit : place ≠ .unregistering) :
    Moves s ({ s with store := store }.at conn place) conn where
  started := by rwa [hplace]
  others c hc := Server.at_worker_ne hc
  stop := rfl
  main := rfl
  accepted := rfl
  closed c hc := hc
  enrolled c hc := .inl hc
  quit h := absurd (Server.at_worker_self.symm.trans h) hquit

theorem WorkerStep.moves (h : WorkerStep env s conn e s') : Moves s s' conn := by
  cases h with
  | hangUp hplace =>
    refine ⟨by simp [hplace], fun c hc => Server.at_worker_ne hc, rfl, rfl, rfl,
      fun c hc => Server.hangUp_closed hc, fun c hc => .inl hc, fun _ => ?_⟩
    exact Server.hangUp_closed_self
  | unregister hplace =>
    refine ⟨by simp [hplace], fun c hc => Server.at_worker_ne hc, rfl, rfl, rfl,
      fun c hc => hc, fun c hc => ?_, fun h => ?_⟩
    · by_cases heq : c = conn
      · exact .inr ⟨heq, hplace⟩
      · exact .inl (List.mem_filter.mpr ⟨hc, decide_eq_true heq⟩)
    · cases Server.at_worker_self.symm.trans h
  | check hplace | quit hplace | receive hplace | receiveFailed hplace | pong hplace
  | invalid hplace | call _ _ _ hplace | refuse _ _ _ hplace | create _ _ _ _ _ _ _ _ hplace
  | register _ _ _ _ _ _ _ _ _ _ hplace | remove _ _ _ _ hplace | closeRegion _ _ hplace
  | answer hplace | answerFailed hplace | report hplace | reportFailed hplace =>
    exact moves_at hplace (by simp) (by simp)

theorem Hosted.moves (h : Hosted s) (hmoves : Moves s s' conn) : Hosted s' := by
  refine ⟨fun c hc hclosed => ?_, fun c hquit => ?_, fun c hplace => ?_, fun c hmain => ?_⟩
  · have hopen : s.closed c = false := by
      rw [Bool.eq_false_iff]
      intro hc
      rw [hmoves.closed c hc] at hclosed
      cases hclosed
    rw [hmoves.accepted] at hc
    rw [hmoves.main]
    refine (h.owed c hc hopen).mono fun hmem => (hmoves.enrolled c hmem).resolve_right ?_
    intro hgone
    obtain ⟨rfl, hplace⟩ := hgone
    rw [h.quit c hplace] at hopen
    cases hopen
  · by_cases hc : c = conn
    · rw [hc] at hquit ⊢
      exact hmoves.quit hquit
    · rw [hmoves.others c hc] at hquit
      exact hmoves.closed c (h.quit c hquit)
  · rw [hmoves.accepted]
    by_cases hc : c = conn
    · rw [hc]
      exact h.known conn hmoves.started
    · rw [hmoves.others c hc] at hplace
      exact h.known c hplace
  · rw [hmoves.main] at hmain
    obtain ⟨hlt, habsent⟩ := h.enrolled c hmain
    have hne : c ≠ conn := by
      rintro rfl
      exact hmoves.started habsent
    rw [hmoves.accepted, hmoves.others c hne]
    exact ⟨hlt, habsent⟩

end Workers

theorem Hosted.hung {s s' : Server P} (h : Hosted s) (haccepted : s'.accepted = s.accepted)
    (hworker : s'.worker = s.worker) (hclosed : ∀ c, s.closed c = true → s'.closed c = true)
    (howed : ∀ c, s'.closed c = false → s.main.Owes s.connections c →
      s'.main.Owes s'.connections c)
    (henrolled : ∀ c, s'.main = .accepted c ∨ s'.main = .registered c →
      s.main = .accepted c ∨ s.main = .registered c) : Hosted s' where
  owed c hc hopen := by
    rw [haccepted] at hc
    refine howed c hopen (h.owed c hc ?_)
    rw [Bool.eq_false_iff]
    intro hc
    rw [hclosed c hc] at hopen
    cases hopen
  quit c hquit := by
    rw [hworker] at hquit
    exact hclosed c (h.quit c hquit)
  known c hplace := by
    rw [hworker] at hplace
    rw [haccepted]
    exact h.known c hplace
  enrolled c hmain := by
    rw [haccepted, hworker]
    exact h.enrolled c (henrolled c hmain)

section Main
variable {s s' : Server P} {e : Event}

theorem Hosted.closed (h : Hosted s) (hdone : s.main.Done) {c : ℕ} (hplace : s.worker c ≠ .absent) :
    s.closed c = true := by
  by_contra hopen
  have howed := h.owed c (h.known c hplace) (by simpa using hopen)
  revert hdone howed
  cases s.main <;> simp [Main.Done, Main.Owes]

theorem Hosted.main (h : Hosted s) (hstep : MainStep s e s') : Hosted s' := by
  cases hstep with
  | accept hmain =>
    refine ⟨fun c hc hopen => ?_, h.quit, fun c hplace => ?_, fun c hc => ?_⟩
    · obtain hlt | rfl := Nat.lt_succ_iff_lt_or_eq.mp hc
      · have howed := h.owed c hlt hopen
        rw [hmain] at howed
        exact .inr howed
      · exact .inl rfl
    · exact (h.known c hplace).trans (Nat.lt_succ_self _)
    · obtain hc | hc := hc
      · cases hc
        refine ⟨Nat.lt_succ_self _, ?_⟩
        by_contra hplace
        exact lt_irrefl _ (h.known _ hplace)
      · cases hc
  | register conn hmain =>
    refine h.hung rfl rfl (fun _ hc => hc) (fun c _ howed => ?_) fun c hc => ?_
    · rw [hmain] at howed
      exact List.mem_append.mpr (howed.symm.imp_right List.mem_singleton.mpr)
    · obtain hc | hc := hc
      · cases hc
      · cases hc
        exact .inl hmain
  | start conn hmain =>
    have hlt := (h.enrolled conn (.inr hmain)).1
    refine ⟨fun c hc hopen => ?_, fun c hquit => ?_, fun c hplace => ?_, fun c hc => ?_⟩
    · have howed := h.owed c hc hopen
      rw [hmain] at howed
      exact howed
    · by_cases hc : c = conn
      · rw [hc, Server.at_worker_self] at hquit
        cases hquit
      · rw [Server.at_worker_ne hc] at hquit
        exact h.quit c hquit
    · by_cases hc : c = conn
      · rw [hc]
        exact hlt
      · rw [Server.at_worker_ne hc] at hplace
        exact h.known c hplace
    · obtain hc | hc := hc
      · cases hc
      · cases hc
  | hangUp conn rest hmain =>
    refine h.hung rfl rfl (fun c hc => Server.hangUp_closed hc) (fun c hopen howed => ?_) (by simp)
    rw [hmain] at howed
    refine (List.mem_cons.mp howed).resolve_left ?_
    intro heq
    rw [heq] at hopen
    cases Server.hangUp_closed_self.symm.trans hopen
  | listen hmain | listenFailed hmain | check hmain | quit hmain | timeout hmain
  | acceptFailed hmain | startFailed _ hmain | closeListener hmain | list hmain
  | clear _ _ hmain | closeRegion _ _ _ hmain | finish hmain =>
    exact h.hung rfl rfl (fun _ hc => hc) (by simp [hmain, Main.Owes]) (by simp)

end Main

section Steps
variable [DecidableEq P] {env : Environment} {s s' : Server P} {e : Event}

theorem Hosted.caller (h : Hosted s) {p : P} (hstep : CallerStep s p e s') : Hosted s' := by
  cases hstep with
  | stop | closeListener | list | finish =>
    exact h.hung rfl rfl (fun _ hc => hc) (fun _ _ hc => hc) (fun _ hc => hc)
  | hangUp conn rest =>
    exact h.hung rfl rfl (fun c hc => Server.hangUp_closed hc) (fun _ _ hc => hc) (fun _ hc => hc)

theorem Hosted.step (h : Hosted s) (hstep : Step env s e s') : Hosted s' := by
  cases hstep with
  | worker conn hworker => exact h.moves hworker.moves
  | main hmain => exact h.main hmain
  | caller p hcaller => exact h.caller hcaller

/-! ## Requests that are still received -/

theorem Step.received {c : ℕ} (hstep : Step env s (.received c) s') :
    s.worker c = .waiting ∧ s.closed c = false ∧ s'.worker c = .serving := by
  cases hstep with
  | worker conn h =>
    cases h with
    | receive hplace hclosed => exact ⟨hplace, hclosed, Server.at_worker_self⟩
  | main h => cases h
  | caller p h => cases h

theorem Step.done (hstep : Step env s e s') (hdone : s.main.Done) : s'.main.Done := by
  cases hstep with
  | worker conn h => rwa [h.moves.main]
  | caller p h => cases h <;> exact hdone
  | main h =>
    cases h with
    | closeRegion | finish => trivial
    | listen hmain | listenFailed hmain | check hmain | quit hmain | accept hmain | timeout hmain
    | acceptFailed hmain | register _ hmain | start _ hmain | startFailed _ hmain
    | closeListener hmain | list hmain | hangUp _ _ hmain | clear _ _ hmain =>
      rw [hmain] at hdone
      exact hdone.elim

theorem Step.stopped (hstep : Step env s e s') (hstop : s.stop = true) : s'.stop = true := by
  cases hstep with
  | worker conn h => rwa [h.moves.stop]
  | main h => cases h <;> exact hstop
  | caller p h =>
    cases h with
    | stop => rfl
    | closeListener | list | hangUp | finish => exact hstop

theorem Step.waiting (hstep : Step env s e s') (hstop : s.stop = true) {c : ℕ}
    (hplace : s'.worker c = .waiting) : s.worker c = .waiting := by
  cases hstep with
  | worker conn h =>
    by_cases hc : c = conn
    · subst hc
      cases h with
      | check hplace hgo =>
        rw [hstop] at hgo
        cases hgo
      | _ => cases Server.at_worker_self.symm.trans hplace
    · rwa [h.moves.others c hc] at hplace
  | main h =>
    cases h with
    | start conn hmain =>
      by_cases hc : c = conn
      · rw [hc, Server.at_worker_self] at hplace
        cases hplace
      · rwa [Server.at_worker_ne hc] at hplace
    | _ => exact hplace
  | caller p h => cases h <;> exact hplace

variable {before after : List Event}

theorem run_hosted (hrun : Run (Step env) Server.new after s) : Hosted s :=
  hrun.invariant (fun _ _ _ h hstep => h.step hstep) Hosted.new

theorem received_done (hrun : Run (Step env) s after s') (h : Hosted s) (hdone : s.main.Done)
    (c : ℕ) : .received c ∉ after := by
  suffices hall : Hosted s' ∧ s'.main.Done ∧ .received c ∉ after from hall.2.2
  refine hrun.history (I := fun events s => Hosted s ∧ s.main.Done ∧ .received c ∉ events)
    ⟨h, hdone, by simp⟩ ?_
  intro events e s s' _ hI hstep
  obtain ⟨hhosted, hdone, hnone⟩ := hI
  refine ⟨hhosted.step hstep, hstep.done hdone, ?_⟩
  intro hmem
  obtain hmem | hmem := List.mem_append.mp hmem
  · exact hnone hmem
  · cases List.mem_singleton.mp hmem
    obtain ⟨hplace, hopen, -⟩ := hstep.received
    rw [hhosted.closed hdone (by simp [hplace])] at hopen
    cases hopen

/-- A worker may have looked at `_stop` before it was set; it does so again before it waits for
another request. -/
theorem received_stopped (hrun : Run (Step env) s after s') (hstop : s.stop = true) (c : ℕ) :
    after.count (.received c) ≤ 1 := by
  suffices hall : s'.stop = true ∧ after.count (.received c) ≤ 1 ∧
      (after.count (.received c) = 1 → s'.worker c ≠ .waiting) from hall.2.1
  refine hrun.history (I := fun events s => s.stop = true ∧ events.count (.received c) ≤ 1 ∧
    (events.count (.received c) = 1 → s.worker c ≠ .waiting)) ⟨hstop, by simp, by simp⟩ ?_
  intro events e s s' _ hI hstep
  obtain ⟨hstop, hone, hplace⟩ := hI
  refine ⟨hstep.stopped hstop, ?_⟩
  rw [List.count_append, List.count_singleton]
  by_cases he : e = .received c
  · subst he
    obtain ⟨hwaiting, -, hserving⟩ := hstep.received
    have hzero : events.count (.received c) ≠ 1 := fun h => hplace h hwaiting
    simp only [BEq.rfl, if_true, hserving]
    exact ⟨by omega, fun _ => by simp⟩
  · have hbeq : (e == Event.received c) = false := beq_eq_false_iff_ne.mpr he
    simp only [hbeq, Bool.false_eq_true, if_false, add_zero]
    exact ⟨hone, fun h hwaiting => hplace h (hstep.waiting hstop hwaiting)⟩

end Steps

/-! ## Every run -/

/-- The connections of a server that has gone through these events. -/
structure Connections (events : List Event) (s : Server P) : Prop where
  closed : s.main = .returned → ∀ c < s.accepted, s.closed c = true
  stopped : ∀ before after, events = before ++ .stopped :: after →
    ∀ c, after.count (.received c) ≤ 1
  cleared : ∀ before after, events = before ++ .cleared :: after → ∀ c, .received c ∉ after

/-- When `serve_forever` has returned, every connection that it has accepted is closed; a connection
receives at most one more request once `_stop` is set, and none once the registry is empty. -/
theorem connections_end [DecidableEq P] {env : Environment} {events : List Event} {s : Server P}
    (hrun : Run (Step env) Server.new events s) : Connections events s := by
  refine ⟨fun hmain c hc => ?_, fun before after hevents c => ?_, fun before after hevents c => ?_⟩
  · by_contra hopen
    have howed := (run_hosted hrun).owed c hc (by simpa using hopen)
    rw [hmain] at howed
    exact howed
  · rw [hevents] at hrun
    obtain ⟨s₁, s₂, -, hstop, hlater⟩ := hrun.split_cons
    refine received_stopped hlater ?_ c
    cases hstop with
    | worker conn h => cases h
    | main h => cases h
    | caller p h =>
      cases h with
      | stop => rfl
  · rw [hevents] at hrun
    obtain ⟨s₁, s₂, hearlier, hclear, hlater⟩ := hrun.split_cons
    refine received_done hlater ((run_hosted hearlier).step hclear) ?_ c
    cases hclear with
    | worker conn h => cases h
    | caller p h => cases h
    | main h =>
      cases h with
      | clear => trivial

/-- A worker is creating an object while the server is shut down. -/
theorem late_run : ∃ (events : List Event) (s : Server Unit),
    Run (Step plainEnvironment) Server.new events s ∧ s.main = .returned ∧
      (∀ conn, s.worker conn = .absent ∨ s.worker conn = .ended) ∧
      openAt s.store.regions 0 = true := by
  have served := (Run.nil : Run (Step plainEnvironment) (Server.new : Server Unit) [] _)
    |>.snoc (.main (.listen rfl)) |>.snoc (.main (.check rfl rfl)) |>.snoc (.main (.accept rfl rfl))
    |>.snoc (.main (.register 0 rfl)) |>.snoc (.main (.start 0 rfl))
    |>.snoc (.worker 0 (.check rfl rfl)) |>.snoc (.worker 0 (.receive rfl rfl))
    |>.snoc (.worker 0 (.create 8 (.leaf .none) (.leaf .none) (.leaf (.str "C")) (.dict []) _ _ _
      rfl (by decide) rfl))
  have emptied := served
    |>.snoc (.caller () (.stop rfl)) |>.snoc (.main (.quit rfl rfl))
    |>.snoc (.main (.closeListener rfl)) |>.snoc (.main (.list rfl))
    |>.snoc (.main (.hangUp 0 [] rfl)) |>.snoc (.main (.clear _ _ rfl rfl))
  have ended := emptied
    |>.snoc (.worker 0 (.register _ _ _ _ _ _ _ _ _ _ rfl rfl)) |>.snoc (.main (.finish rfl))
    |>.snoc (.worker 0 (.answerFailed rfl)) |>.snoc (.worker 0 (.reportFailed rfl))
    |>.snoc (.worker 0 (.hangUp rfl)) |>.snoc (.worker 0 (.unregister rfl))
  refine ⟨_, _, ended, rfl, fun conn => ?_, rfl⟩
  by_cases hc : conn = 0
  · exact .inr (by rw [hc]; rfl)
  · exact .inl (by simp [Server.at, Server.new, Server.call, Server.hangUp, hc])

theorem connections_end_late : ∃ (events : List Event) (s : Server Unit),
    s.main = .returned ∧ Connections events s := by
  obtain ⟨events, s, hrun, hmain, -⟩ := late_run
  exact ⟨events, s, hmain, connections_end hrun⟩

end Npb.Mstore.Daemon
